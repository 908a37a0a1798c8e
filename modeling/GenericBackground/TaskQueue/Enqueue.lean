import GenericBackground.Lib.Path
import GenericBackground.Lib.UniqueIndex
import GenericBackground.TaskQueue.Waiting

/-!
# Deduplicated enqueueing

`create_task`, called in any number of transactions. The partial unique index over `unique_key`
takes part only with active tasks (`activeKey`). A call with a key looks the active task up under
`FOR UPDATE`, inserts in a savepoint if there is none, and looks up again if the index fails the
insert. Both lookups read the snapshot of the calling transaction, and the index does not: a task
committed after the snapshot fails the insert and is found by neither.
-/

namespace GenericTaskQueue

open Lts UniqueIndex

/-! ## The call -/

structure CreateArgs where
  typeCode : TypeCode
  name : Option String := none
  params : Option Json := none
  channel : Option Channel := none
  priority : ℤ := 5
  eta : Option ℕ := none
  timeout : ℤ := 0
  parentId : Option TaskId := none
  retryPolicy : Option RetryPolicyName := none
  maxRetries : Option ℤ := none
  uniqueKey : Option String := none
  onConflict : String := "reuse-running"
  deriving DecidableEq, Repr

namespace CreateArgs

def key (c : CreateArgs) : Option String := c.uniqueKey.filter (· ≠ "")

/-- The values that the call creates a task with: what is not given is taken from the task type, and
from fixed defaults if the type is not registered. -/
def vals (E : Env) (uid : UserId) (id : TaskId) (c : CreateArgs) : TaskVals where
  id := id
  name := c.name.getD c.typeCode
  typeCode := c.typeCode
  channel := c.channel.getD (((E.reg.lookup c.typeCode).map TaskType.defaultChannel).getD "default")
  priority := c.priority
  taskParams := c.params.getD (.text "{}")
  eta := c.eta
  retryPolicy := normalizeRetryPolicy (c.retryPolicy.getD
    (((E.reg.lookup c.typeCode).map TaskType.retryPolicy).getD (.canonical .noRetry)))
  maxRetries := c.maxRetries.getD (((E.reg.lookup c.typeCode).map TaskType.maxRetries).getD 0)
  timeout := c.timeout
  parentId := c.parentId.filter (· ≠ 0)
  uniqueKey := c.key
  dateCreated := E.now
  createUid := uid

end CreateArgs

/-- How a call of `create_task` ends. -/
inductive CreateResult where
  | created (id : TaskId)
  | existing (id : TaskId)
  | alreadyScheduled (id : TaskId)
  | validationError (msg : String)
  | uniqueViolation
  deriving DecidableEq, Repr

/-- The policy `on_conflict` for an active task with the key. -/
def CreateArgs.onExisting (c : CreateArgs) (id : TaskId) : CreateResult :=
  if c.onConflict = "raise" then .alreadyScheduled id else .existing id

/-- The key under which the partial unique index keeps the row. -/
def activeKey (t : Task) : Option String := if t.state ∈ activeStates then t.uniqueKey else none

/-- `create_task` in a transaction that nobody interferes with: the active task with the key is
reused, and there is none when the insert comes. -/
def createTask (E : Env) (uid : UserId) (c : CreateArgs) (T : Table) : Table × CreateResult :=
  match c.key.bind fun a => T.rows.find? fun t => activeKey t = some a with
  | some t => (T, c.onExisting t.id)
  | none =>
    if c.typeCode ∉ E.activeTypes then
      (T, .validationError ("Unknown task type '" ++ c.typeCode ++ "'."))
    else (T.insert [(c.vals E uid 0).create], .created T.nextId)

inductive CallPhase where
  | lookup
  | insert
  | ended (r : CreateResult)
  deriving DecidableEq, Repr

structure Call where
  args : CreateArgs
  phase : CallPhase
  deriving DecidableEq, Repr

/-! ## The system -/

/-- The database, the call that each open transaction has made last, and the id sequence. -/
structure Enqueue where
  db : Db TaskId Task
  calls : ℕ → Option Call
  seq : TaskId

/-- A statement of one transaction. `found` is the row that a lookup happens to return first.
A `write` is any other statement on a row: the life cycle of the tasks. -/
inductive EnqueueEv where
  | begin
  | call (i : ℕ) (c : CreateArgs)
  | lookup (i : ℕ) (found : Option TaskId)
  | insert (i : ℕ) (E : Env) (uid : UserId) (found : Option TaskId)
  | write (i : ℕ) (k : TaskId) (o : Option Task)
  | commit (i : ℕ)
  | abort (i : ℕ)

namespace Enqueue

def holders (s : Enqueue) (x : Txn TaskId Task) (a : String) : List TaskId :=
  s.db.keys.filter fun k => has activeKey a (x.view k)

/-- `fetchone` of the lookup. -/
def fetches (s : Enqueue) (x : Txn TaskId Task) (a : String) (found : Option TaskId) : Prop :=
  match found with
  | some k => k ∈ s.holders x a
  | none => s.holders x a = []

instance (s : Enqueue) (x : Txn TaskId Task) (a : String) (found : Option TaskId) :
    Decidable (s.fetches x a found) := by unfold fetches; split <;> infer_instance

def idle (s : Enqueue) (i : ℕ) : Bool :=
  (s.calls i).all fun c => c.phase ≠ .lookup ∧ c.phase ≠ .insert

def setCall (s : Enqueue) (i : ℕ) (c : Option Call) : Enqueue :=
  { s with calls := Function.update s.calls i c }

/-- The lookup under `FOR UPDATE`: it locks the rows it finds. -/
def lookup (s : Enqueue) (i : ℕ) (x : Txn TaskId Task) (c : CreateArgs) (a : String)
    (found : Option TaskId) : Option Enqueue :=
  if s.fetches x a found then
    (UniqueIndex.step activeKey s.db (.lock i (s.holders x a))).map fun db =>
      { s with db := db }.setCall i (some ⟨c, match found with
        | some k => .ended (c.onExisting k)
        | none => .insert⟩)
  else none

/-- `create` in its savepoint, and the lookup after a `UniqueViolation`. -/
def insert (s : Enqueue) (i : ℕ) (x : Txn TaskId Task) (c : CreateArgs) (E : Env) (uid : UserId)
    (found : Option TaskId) : Option Enqueue :=
  if c.typeCode ∉ E.activeTypes then
    some (s.setCall i (some ⟨c, .ended (.validationError
      ("Unknown task type '" ++ c.typeCode ++ "'."))⟩))
  -- another transaction has a row of the key in work: the insert waits for its end
  else if c.key.any (fun a => s.db.Busy activeKey i a) then none
  else if c.key.any (fun a => s.db.conflict activeKey x s.seq a) then
    if c.key.all (fun a => s.fetches x a found) then
      some ({ s with seq := s.seq + 1 }.setCall i (some ⟨c, .ended (match found with
        | some k => c.onExisting k
        | none => .uniqueViolation)⟩))
    else none
  else (UniqueIndex.step activeKey s.db (.write i s.seq (some (c.vals E uid s.seq).create))).map
    fun db => { s with db := db, seq := s.seq + 1 }.setCall i (some ⟨c, .ended (.created s.seq)⟩)

def step (s : Enqueue) : EnqueueEv → Option Enqueue
  | .begin => (UniqueIndex.step activeKey s.db .begin).map fun db =>
    { s with db := db }.setCall s.db.nextId none
  | .call i c =>
    if (s.db.txns i).isSome ∧ s.idle i then
      some (s.setCall i (some ⟨c, if c.key.isSome then .lookup else .insert⟩))
    else none
  | .lookup i found =>
    (s.db.txns i).bind fun x => (s.calls i).bind fun c => c.args.key.bind fun a =>
    if c.phase = .lookup then s.lookup i x c.args a found else none
  | .insert i E uid found => (s.db.txns i).bind fun x => (s.calls i).bind fun c =>
    if c.phase = .insert then s.insert i x c.args E uid found else none
  | .write i k o =>
    if s.idle i then (UniqueIndex.step activeKey s.db (.write i k o)).map fun db =>
      { s with db := db, seq := max s.seq (k + 1) }
    else none
  | .commit i =>
    if s.idle i then (UniqueIndex.step activeKey s.db (.commit i)).map fun db =>
      { s with db := db }.setCall i none
    else none
  | .abort i => (UniqueIndex.step activeKey s.db (.abort i)).map fun db =>
    { s with db := db }.setCall i none

/-- No call has been made yet, no two active tasks have one key, and the sequence is past every
id. -/
structure Start (s : Enqueue) : Prop where
  calls : ∀ i, s.calls i = none
  index : UniqueIndex.Inv activeKey s.db
  below : ∀ k ∈ s.db.keys, k < s.seq

/-! ## A call that inserts sees no active task with its key -/

structure Ok (s : Enqueue) : Prop where
  index : UniqueIndex.Inv activeKey s.db
  below : ∀ k ∈ s.db.keys, k < s.seq
  unseen : ∀ i x c a, s.db.txns i = some x → s.calls i = some c → c.phase = .insert →
    c.args.key = some a → ∀ k t, x.view k = some t → activeKey t ≠ some a

theorem Start.ok {s : Enqueue} (h : s.Start) : s.Ok where
  index := h.index
  below := h.below
  unseen i x c a _ hc := by rw [h.calls i] at hc; cases hc

variable {s s' : Enqueue} {e : EnqueueEv} {i : ℕ} {x : Txn TaskId Task} {c : Call}

@[simp] theorem setCall_db (s : Enqueue) (i : ℕ) (c : Option Call) :
    (s.setCall i c).db = s.db := rfl

@[simp] theorem setCall_seq (s : Enqueue) (i : ℕ) (c : Option Call) :
    (s.setCall i c).seq = s.seq := rfl

@[simp] theorem setCall_self (s : Enqueue) (i : ℕ) (c : Option Call) :
    (s.setCall i c).calls i = c := by simp [setCall]

@[simp] theorem setCall_ne (s : Enqueue) {i j : ℕ} (c : Option Call) (h : j ≠ i) :
    (s.setCall i c).calls j = s.calls j := by simp [setCall, h]

theorem Ok.move (ho : s.Ok) (hi : UniqueIndex.Inv activeKey s'.db)
    (hb : ∀ k ∈ s'.db.keys, k < s'.seq) (htxns : ∀ j, j ≠ i → s'.db.txns j = s.db.txns j)
    (hcalls : ∀ j, j ≠ i → s'.calls j = s.calls j)
    (hu : ∀ x c a, s'.db.txns i = some x → s'.calls i = some c → c.phase = .insert →
      c.args.key = some a → ∀ k t, x.view k = some t → activeKey t ≠ some a) : s'.Ok := by
  refine ⟨hi, hb, fun j x c a hx hc => ?_⟩
  by_cases hj : j = i
  · subst hj
    exact hu x c a hx hc
  · rw [htxns j hj] at hx
    rw [hcalls j hj] at hc
    exact ho.unseen j x c a hx hc

theorem Ok.db_step {db : Db TaskId Task} {ev : Event TaskId Task} (ho : s.Ok)
    (hs : UniqueIndex.step activeKey s.db ev = some db) (hi : ev.txn s.db = i) {seq : TaskId}
    {c : Option Call} (hseq : s.seq ≤ seq) (hw : ∀ j k o, ev = .write j k o → k < seq)
    (hu : ∀ x c' a, db.txns i = some x → c = some c' → c'.phase = .insert →
      c'.args.key = some a → ∀ k t, x.view k = some t → activeKey t ≠ some a) :
    ({ s with db := db, seq := seq }.setCall i c).Ok := by
  refine ho.move (i := i) (ho.index.step hs) (fun k hk => ?_)
    (fun j hj => step_txns_ne hs (by rw [hi]; exact hj)) (fun j hj => setCall_ne _ c hj)
    fun x c' a hx hc => hu x c' a hx (by simpa using hc)
  rcases step_keys hs hk with hk | ⟨j, o, rfl⟩
  · exact Nat.lt_of_lt_of_le (ho.below k hk) hseq
  · exact hw j k o rfl

theorem fetches_none {a : String} (ho : s.Ok) (hx : s.db.txns i = some x)
    (h : s.fetches x a none) {k : TaskId} {t : Task} (hk : x.view k = some t) :
    activeKey t ≠ some a := by
  intro ha
  have hmem : k ∈ s.holders x a := by
    refine List.mem_filter.2 ⟨ho.index.view_key hx hk, ?_⟩
    simp [has, hk, ha]
  have h : s.holders x a = [] := h
  rw [h] at hmem
  cases hmem

theorem idle_not_insert (h : s.idle i = true) (hc : s.calls i = some c) : c.phase ≠ .insert := by
  have := h
  simp only [idle, hc, Option.all_some, decide_eq_true_eq] at this
  exact this.2

theorem lookup_ok {a : String} {found : Option TaskId} {args : CreateArgs} (ho : s.Ok)
    (hx : s.db.txns i = some x) (hk : args.key = some a)
    (h : s.lookup i x args a found = some s') : s'.Ok := by
  unfold lookup at h
  split_ifs at h with hf
  obtain ⟨db, hs, rfl⟩ := Option.map_eq_some_iff.1 h
  refine ho.db_step hs rfl (Nat.le_refl _) (fun _ _ _ h => by cases h) fun y c a' hy hc hp hk' => ?_
  cases found with
  | some k =>
    obtain rfl := Option.some.inj hc
    cases hp
  | none =>
    obtain rfl := Option.some.inj hc
    obtain rfl : a = a' := Option.some.inj (hk.symm.trans hk')
    -- a lock does not change what the transaction sees
    cases step_iff.1 hs with
    | lock hx' _ =>
      obtain rfl := Option.some.inj (hx.symm.trans hx')
      obtain rfl := Option.some.inj ((set_txns_self s.db i _).symm.trans hy)
      exact fun k t h => fetches_none ho hx hf h

theorem insert_ok {found : Option TaskId} {args : CreateArgs} {E : Env} {uid : UserId} (ho : s.Ok)
    (h : s.insert i x args E uid found = some s') : s'.Ok := by
  unfold insert at h
  split_ifs at h with hty hbusy hconf hf
  · obtain rfl := Option.some.inj h
    refine ho.move (i := i) ho.index (fun k hk => Nat.lt_succ_of_lt (ho.below k hk))
      (fun _ _ => rfl) (fun j hj => setCall_ne _ _ hj) fun y c a _ hc hp => ?_
    obtain rfl := Option.some.inj ((setCall_self _ _ _).symm.trans hc)
    cases hp
  · obtain ⟨db, hs, rfl⟩ := Option.map_eq_some_iff.1 h
    refine ho.db_step hs rfl (Nat.le_succ _) (fun j k o h => ?_) fun y c a _ hc hp => ?_
    · obtain ⟨-, rfl, -⟩ := Event.write.inj h
      exact Nat.lt_succ_self _
    · obtain rfl := Option.some.inj hc
      cases hp
  · obtain rfl := Option.some.inj h
    refine ho.move (i := i) ho.index ho.below (fun _ _ => rfl) (fun j hj => setCall_ne _ _ hj)
      fun y c a _ hc hp => ?_
    obtain rfl := Option.some.inj ((setCall_self _ _ _).symm.trans hc)
    cases hp

theorem Ok.step (ho : s.Ok) (h : Enqueue.step s e = some s') : s'.Ok := by
  cases e with
  | begin =>
    simp only [Enqueue.step] at h
    obtain ⟨db, hs, rfl⟩ := Option.map_eq_some_iff.1 h
    exact ho.db_step hs rfl (Nat.le_refl _) (fun _ _ _ h => by cases h)
      fun _ _ _ _ hc => by cases hc
  | call i c =>
    simp only [Enqueue.step] at h
    by_cases hidle : (s.db.txns i).isSome ∧ s.idle i
    · rw [if_pos hidle] at h
      obtain rfl := Option.some.inj h
      refine ho.move (i := i) ho.index ho.below (fun _ _ => rfl) (fun j hj => setCall_ne _ _ hj)
        fun x c' a _ hc hp hk => ?_
      -- a call that starts with the insert has no key
      obtain rfl := Option.some.inj ((setCall_self _ _ _).symm.trans hc)
      have hk : c.key = some a := hk
      simp [hk] at hp
    · rw [if_neg hidle] at h
      cases h
  | lookup i found =>
    simp only [Enqueue.step] at h
    obtain ⟨x, hx, h⟩ := Option.bind_eq_some_iff.1 h
    obtain ⟨c, _, h⟩ := Option.bind_eq_some_iff.1 h
    obtain ⟨a, hk, h⟩ := Option.bind_eq_some_iff.1 h
    split_ifs at h
    exact lookup_ok ho hx hk h
  | insert i E uid found =>
    simp only [Enqueue.step] at h
    obtain ⟨x, hx, h⟩ := Option.bind_eq_some_iff.1 h
    obtain ⟨c, _, h⟩ := Option.bind_eq_some_iff.1 h
    split_ifs at h
    exact insert_ok ho h
  | write i k o =>
    simp only [Enqueue.step] at h
    split_ifs at h with hidle
    obtain ⟨db, hs, rfl⟩ := Option.map_eq_some_iff.1 h
    have : ({ s with db := db, seq := max s.seq (k + 1) }.setCall i (s.calls i)).Ok := by
      refine ho.db_step hs rfl (Nat.le_max_left _ _) (fun j k' o' h => ?_) fun x c a _ hc hp => ?_
      · obtain ⟨-, rfl, -⟩ := Event.write.inj h
        exact Nat.lt_of_lt_of_le (Nat.lt_succ_self _) (Nat.le_max_right _ _)
      · exact absurd hp (idle_not_insert hidle hc)
    simpa [setCall] using this
  | commit i =>
    simp only [Enqueue.step] at h
    split_ifs at h
    obtain ⟨db, hs, rfl⟩ := Option.map_eq_some_iff.1 h
    exact ho.db_step hs rfl (Nat.le_refl _) (fun _ _ _ h => by cases h)
      fun _ _ _ _ hc => by cases hc
  | abort i =>
    simp only [Enqueue.step] at h
    obtain ⟨db, hs, rfl⟩ := Option.map_eq_some_iff.1 h
    exact ho.db_step hs rfl (Nat.le_refl _) (fun _ _ _ h => by cases h)
      fun _ _ _ _ hc => by cases hc

theorem Ok.run {s₀ : Enqueue} {es : List EnqueueEv} (h0 : s₀.Start)
    (h : Path Enqueue.step anyStep s₀ es s) : s.Ok :=
  h.inv (fun _ _ _ ho _ hs => Ok.step ho hs) h0.ok

/-! ## How a call ends -/

/-- An active task with the key that is committed, and that the transaction has not written. -/
def Rival (s : Enqueue) (i : ℕ) (a : String) (k : TaskId) : Prop :=
  ∃ x t, s.db.txns i = some x ∧ x.own k = none ∧ s.db.row k = some t ∧ activeKey t = some a

theorem rival_iff {a : String} {k : TaskId} : ((s.db.txns i).any fun x => x.own k = none ∧
    (s.db.row k).any fun t => activeKey t = some a) = true ↔ s.Rival i a k := by
  simp [Rival, Option.any_eq_true]

instance (s : Enqueue) (i : ℕ) (a : String) (k : TaskId) : Decidable (s.Rival i a k) :=
  decidable_of_iff _ rival_iff

/-- The transaction sees the task, active and with the key. -/
def Seen (s : Enqueue) (i : ℕ) (a : String) (k : TaskId) : Prop :=
  ∃ x t, s.db.txns i = some x ∧ x.view k = some t ∧ activeKey t = some a

/-- The step ends the call `c` of the transaction with the result `r`. -/
structure EndsCall (s s' : Enqueue) (i : ℕ) (c : Call) (r : CreateResult) : Prop where
  call : s.calls i = some c
  going : c.phase = .lookup ∨ c.phase = .insert
  ended : s'.calls i = some ⟨c.args, .ended r⟩

/-- The step does not get as far as the table: `create` does not know the task type. -/
def refuses (c : CreateArgs) : EnqueueEv → Bool
  | .insert _ E _ _ => c.typeCode ∉ E.activeTypes
  | _ => false

theorem ends_cases {r : CreateResult} (h : Enqueue.step s e = some s') (hc : EndsCall s s' i c r) :
    (∃ found x a, e = .lookup i found ∧ s.db.txns i = some x ∧ c.args.key = some a ∧
      s.lookup i x c.args a found = some s') ∨
    ∃ E uid found x, e = .insert i E uid found ∧ s.db.txns i = some x ∧ c.phase = .insert ∧
      s.insert i x c.args E uid found = some s' := by
  -- a step that leaves the call as it was does not end it
  have kept : s'.calls i ≠ s.calls i := by
    intro heq
    have hphase := hc.going
    rw [hc.call, hc.ended] at heq
    rw [← Option.some.inj heq] at hphase
    simp at hphase
  have gone : s'.calls i ≠ none := by simp [hc.ended]
  cases e with
  | begin =>
    simp only [Enqueue.step] at h
    obtain ⟨db, hs, rfl⟩ := Option.map_eq_some_iff.1 h
    by_cases hi : i = s.db.nextId
    · subst hi
      simp at gone
    · exact absurd (setCall_ne _ _ hi) kept
  | call j args =>
    simp only [Enqueue.step] at h
    by_cases hidle : (s.db.txns j).isSome ∧ s.idle j
    · rw [if_pos hidle] at h
      obtain rfl := Option.some.inj h
      by_cases hi : i = j
      · subst hi
        have := hidle.2
        have hg := hc.going
        simp only [idle, hc.call, Option.all_some, decide_eq_true_eq] at this
        exact absurd hg (by simp [this.1, this.2])
      · exact absurd (setCall_ne _ _ hi) kept
    · rw [if_neg hidle] at h
      cases h
  | lookup j found =>
    simp only [Enqueue.step] at h
    obtain ⟨x, hx, h⟩ := Option.bind_eq_some_iff.1 h
    obtain ⟨c', hc', h⟩ := Option.bind_eq_some_iff.1 h
    obtain ⟨a, hk, h⟩ := Option.bind_eq_some_iff.1 h
    split_ifs at h with hp
    by_cases hi : i = j
    · subst hi
      obtain rfl := Option.some.inj (hc.call.symm.trans hc')
      exact .inl ⟨found, x, a, rfl, hx, hk, h⟩
    · unfold lookup at h
      split_ifs at h
      obtain ⟨db, hs, rfl⟩ := Option.map_eq_some_iff.1 h
      exact absurd (setCall_ne _ _ hi) kept
  | insert j E uid found =>
    simp only [Enqueue.step] at h
    obtain ⟨x, hx, h⟩ := Option.bind_eq_some_iff.1 h
    obtain ⟨c', hc', h⟩ := Option.bind_eq_some_iff.1 h
    split_ifs at h with hp
    by_cases hi : i = j
    · subst hi
      obtain rfl := Option.some.inj (hc.call.symm.trans hc')
      exact .inr ⟨E, uid, found, x, rfl, hx, hp, h⟩
    · unfold insert at h
      split_ifs at h
      · obtain rfl := Option.some.inj h
        exact absurd (setCall_ne _ _ hi) kept
      · obtain ⟨db, hs, rfl⟩ := Option.map_eq_some_iff.1 h
        exact absurd (setCall_ne _ _ hi) kept
      · obtain rfl := Option.some.inj h
        exact absurd (setCall_ne _ _ hi) kept
  | write j k o =>
    simp only [Enqueue.step] at h
    split_ifs at h
    obtain ⟨db, hs, rfl⟩ := Option.map_eq_some_iff.1 h
    exact absurd rfl kept
  | commit j =>
    simp only [Enqueue.step] at h
    split_ifs at h
    obtain ⟨db, hs, rfl⟩ := Option.map_eq_some_iff.1 h
    by_cases hi : i = j
    · subst hi
      simp at gone
    · exact absurd (setCall_ne _ _ hi) kept
  | abort j =>
    simp only [Enqueue.step] at h
    obtain ⟨db, hs, rfl⟩ := Option.map_eq_some_iff.1 h
    by_cases hi : i = j
    · subst hi
      simp at gone
    · exact absurd (setCall_ne _ _ hi) kept

theorem lookup_ends {a : String} {found : Option TaskId} {r : CreateResult} {args : CreateArgs}
    (ho : s.Ok) (hx : s.db.txns i = some x) (h : s.lookup i x args a found = some s')
    (hr : s'.calls i = some ⟨args, .ended r⟩) :
    ∃ k, r = args.onExisting k ∧ s.Seen i a k ∧ ∀ k', s.Rival i a k' → k' = k := by
  unfold lookup at h
  split_ifs at h with hf
  obtain ⟨db, hs, rfl⟩ := Option.map_eq_some_iff.1 h
  have hr := Option.some.inj ((setCall_self _ _ _).symm.trans hr)
  cases found with
  | none => cases hr
  | some k =>
    obtain rfl : args.onExisting k = r := by injection hr with _ hr; injection hr
    have hf : k ∈ s.holders x a := hf
    obtain ⟨t, ht, ha⟩ := has_iff.1 (List.mem_filter.1 hf).2
    refine ⟨k, rfl, ⟨x, t, hx, ht, ha⟩, fun k' hk' => ?_⟩
    obtain ⟨x', t', hx', hown, hrow, ha'⟩ := hk'
    obtain rfl := Option.some.inj (hx.symm.trans hx')
    cases step_iff.1 hs with
    | lock hx'' hl =>
      obtain rfl := Option.some.inj (hx.symm.trans hx'')
      -- the row found can be locked, so the transaction sees it as it is now
      have hfits := ho.index.fits i x hx
      have hlatest : s.db.latest x k = some t := by
        rw [← hfits.view_of_lockable (hl k hf).1]
        exact ht
      exact hfits.unique k' k t' t a (by rw [latest_of_none hown]; exact hrow) hlatest ha' ha

theorem insert_ends {a : String} {found : Option TaskId} {r : CreateResult} {args : CreateArgs}
    {E : Env} {uid : UserId} (ho : s.Ok) (hx : s.db.txns i = some x)
    (hview : ∀ k t, x.view k = some t → activeKey t ≠ some a) (hk : args.key = some a)
    (hty : args.typeCode ∈ E.activeTypes) (h : s.insert i x args E uid found = some s')
    (hr : s'.calls i = some ⟨args, .ended r⟩) :
    (r = .created s.seq ∧ ∀ k, ¬ s.Rival i a k) ∨
      (r = .uniqueViolation ∧ ∃ k, s.Rival i a k) := by
  unfold insert at h
  rw [if_neg (not_not_intro hty)] at h
  split_ifs at h with hbusy hconf hf
  · obtain rfl := Option.some.inj h
    have hr := Option.some.inj ((setCall_self _ _ _).symm.trans hr)
    simp only [hk, Option.any_some, Option.all_some, decide_eq_true_eq] at hconf hf
    cases found with
    | some k =>
      have hf : k ∈ s.holders x a := hf
      obtain ⟨t, ht, ha⟩ := has_iff.1 (List.mem_filter.1 hf).2
      exact absurd ha (hview k t ht)
    | none =>
      obtain rfl : CreateResult.uniqueViolation = r := by injection hr with _ hr; injection hr
      obtain ⟨k, t, -, hown, hrow, ha⟩ := conflict_unseen ho.index hx hview hconf
      exact .inr ⟨rfl, k, x, t, hx, hown, hrow, ha⟩
  · obtain ⟨db, hs, rfl⟩ := Option.map_eq_some_iff.1 h
    have hr := Option.some.inj ((setCall_self _ _ _).symm.trans hr)
    obtain rfl : CreateResult.created s.seq = r := by injection hr with _ hr; injection hr
    refine .inl ⟨rfl, fun k hrival => ?_⟩
    obtain ⟨x', t, hx', hown, hrow, ha⟩ := hrival
    obtain rfl := Option.some.inj (hx.symm.trans hx')
    simp only [hk, Option.any_some] at hconf
    have hne : k ≠ s.seq := Nat.ne_of_lt (ho.below k (ho.index.present k t hrow))
    exact hconf ((conflict_iff ho.index hx).2
      ⟨k, t, hne, by rw [latest_of_none hown]; exact hrow, ha⟩)

theorem insert_total (ho : s.Ok) (hx : s.db.txns i = some x) (args : CreateArgs) (E : Env)
    (uid : UserId) (hb : ∀ a, args.key = some a → ¬ s.db.Busy activeKey i a) :
    ∃ found s', s.insert i x args E uid found = some s' := by
  have hbusy : ¬ args.key.any (fun a => s.db.Busy activeKey i a) = true := by
    rw [Option.any_eq_true]
    rintro ⟨a, ha, h⟩
    exact hb a ha (of_decide_eq_true h)
  by_cases hty : args.typeCode ∈ E.activeTypes
  · by_cases hc : args.key.any (fun a => s.db.conflict activeKey x s.seq a) = true
    · obtain ⟨a, ha, hconf⟩ := (Option.any_eq_true _ _).1 hc
      refine ⟨(s.holders x a).head?, ?_⟩
      have hf : s.fetches x a (s.holders x a).head? := by
        unfold fetches
        split
        · next h => exact List.mem_of_mem_head? h
        · next h => exact List.head?_eq_none_iff.1 h
      simp [insert, hty, ha, hb a ha, hconf, hf]
    · refine ⟨none, ?_⟩
      have hl : s.db.Lockable i x s.seq :=
        Lockable.of_unused ho.index hx fun h => Nat.lt_irrefl _ (ho.below _ h)
      have ht : s.db.Takes activeKey i x s.seq (some (args.vals E uid s.seq).create) := by
        cases hk : args.key with
        | none => simp [Db.Takes, activeKey, CreateArgs.vals, TaskVals.create, hk]
        | some a =>
          have hc : s.db.conflict activeKey x s.seq a = false := by simpa [hk] using hc
          simp [Db.Takes, activeKey, CreateArgs.vals, TaskVals.create, hk, hc, hb a hk,
            activeStates]
      simp [insert, hty, hbusy, hc, UniqueIndex.step, hx, hl, ht]
  · exact ⟨none, by simp [insert, hty]⟩

/-- One call: it answers by its policy for the active tasks that others have committed exactly if it
sees them, and fails raw exactly if it does not. -/
theorem ends_iff {r : CreateResult} {a : String} (ho : s.Ok) (hs : Enqueue.step s e = some s')
    (hc : EndsCall s s' i c r) (hk : c.args.key = some a) (hty : refuses c.args e = false) :
    ((∀ k, s.Rival i a k → r = c.args.onExisting k) ↔ ∀ k, s.Rival i a k → s.Seen i a k) ∧
      (r = .uniqueViolation ↔ ∃ k, s.Rival i a k ∧ ¬ s.Seen i a k) := by
  rcases ends_cases hs hc with ⟨found, x, b, rfl, hx, hb, h⟩ | ⟨E, uid, found, x, rfl, hx, hp, h⟩
  · obtain rfl : a = b := Option.some.inj (hk.symm.trans hb)
    obtain ⟨k, rfl, hseen, honly⟩ := lookup_ends ho hx h hc.ended
    refine ⟨⟨fun _ k' hk' => honly k' hk' ▸ hseen, fun _ k' hk' => by rw [honly k' hk']⟩,
      fun hr => ?_, fun ⟨k', hk', hn⟩ => absurd (honly k' hk' ▸ hseen) hn⟩
    unfold CreateArgs.onExisting at hr
    split_ifs at hr
  · have hview := ho.unseen i x c a hx hc.call hp hk
    -- the insert starts from a view without such a task
    have unseen : ∀ k, ¬ s.Seen i a k := by
      rintro k ⟨x', t, hx', ht, ha⟩
      obtain rfl := Option.some.inj (hx.symm.trans hx')
      exact hview k t ht ha
    have hty : c.args.typeCode ∈ E.activeTypes := by simpa [refuses] using hty
    rcases insert_ends ho hx hview hk hty h hc.ended with ⟨rfl, hno⟩ | ⟨rfl, k, hk'⟩
    · exact ⟨⟨fun _ k hk' => absurd hk' (hno k), fun _ k hk' => absurd hk' (hno k)⟩,
        fun hr => (by cases hr), fun ⟨k, hk', _⟩ => absurd hk' (hno k)⟩
    · refine ⟨⟨fun hall => ?_, fun hall => absurd (hall k hk') (unseen k)⟩,
        fun _ => ⟨k, hk', unseen k⟩, fun _ => rfl⟩
      have hr := hall k hk'
      unfold CreateArgs.onExisting at hr
      split_ifs at hr

end Enqueue

open Enqueue

/-- **Deduplicated enqueueing.** In every run no two committed active tasks have one key. A call
answers as its `on_conflict` says for every active task with its key that others have committed,
exactly if each of these tasks is active in what the calling transaction sees; else the raw
`UniqueViolation` escapes. -/
theorem create_task_dedup_iff {s₀ s : Enqueue} {es : List EnqueueEv} (h0 : s₀.Start)
    (h : Path Enqueue.step anyStep s₀ es s) :
    (∀ k k' t t' a, s.db.row k = some t → s.db.row k' = some t' → activeKey t = some a →
      activeKey t' = some a → k = k') ∧
    ∀ e s' i c r a, Enqueue.step s e = some s' → EndsCall s s' i c r → c.args.key = some a →
      refuses c.args e = false →
      ((∀ k, s.Rival i a k → r = c.args.onExisting k) ↔ ∀ k, s.Rival i a k → s.Seen i a k) ∧
        (r = .uniqueViolation ↔ ∃ k, s.Rival i a k ∧ ¬ s.Seen i a k) := by
  have ho := Ok.run h0 h
  exact ⟨ho.index.unique, fun e s' i c r a hs hc hk hty => ends_iff ho hs hc hk hty⟩

def emptyQueue : Enqueue := ⟨Db.init (fun _ => none) [], fun _ => none, 1⟩

theorem emptyQueue_start : emptyQueue.Start where
  calls _ := rfl
  index := Inv.init (fun _ _ h => by cases h) fun _ _ _ _ _ h => by cases h
  below _ h := by cases h

def nightly : CreateArgs := { typeCode := "report.nightly", uniqueKey := some "nightly" }

def nightlyEnv : Env := ⟨[("report.nightly", {})], ["report.nightly"], 100, []⟩

/-- A transaction queues the job and commits, and the next one calls for it. -/
def queuedBefore : List EnqueueEv := [
  .begin, .call 0 nightly, .lookup 0 none, .insert 0 nightlyEnv 2 none, .commit 0,
  .begin, .call 1 nightly]

/-- Two transactions begin; the second one queues the job and commits, then the first one calls for
it and finds nothing. -/
def queuedMeanwhile : List EnqueueEv := [
  .begin, .begin, .call 1 nightly, .lookup 1 none, .insert 1 nightlyEnv 2 none, .commit 1,
  .call 0 nightly, .lookup 0 none]

/-- The state that the events lead to from an empty queue. -/
def queueAfter (es : List EnqueueEv) : Enqueue := reached Enqueue.step anyStep emptyQueue es

theorem queuedBefore_reused : (queueAfter queuedBefore).Rival 1 "nightly" 1 ∧
    ∀ k, (queueAfter queuedBefore).Rival 1 "nightly" k →
      CreateResult.existing 1 = nightly.onExisting k := by
  have hs : Enqueue.step (queueAfter queuedBefore) (.lookup 1 (some 1)) =
      some (queueAfter (queuedBefore ++ [.lookup 1 (some 1)])) :=
    step_reached (by decide +kernel)
  obtain ⟨hpolicy, hraw⟩ :=
    (create_task_dedup_iff emptyQueue_start (path_reached (by decide +kernel))).2 _ _ 1
      ⟨nightly, .lookup⟩ (.existing 1) "nightly" hs
      ⟨by decide +kernel, .inl rfl, by decide +kernel⟩ (by decide) rfl
  refine ⟨by decide +kernel, hpolicy.2 fun k hk => ?_⟩
  by_contra hn
  cases hraw.2 ⟨k, hk, hn⟩

/-- The raw `UniqueViolation` escapes while the task of the other transaction is active. -/
theorem queuedMeanwhile_raw :
    Path Enqueue.step anyStep emptyQueue queuedMeanwhile (queueAfter queuedMeanwhile) ∧
      (queueAfter queuedMeanwhile).Rival 0 "nightly" 1 ∧
      ∃ s', Enqueue.step (queueAfter queuedMeanwhile) (.insert 0 nightlyEnv 2 none) = some s' ∧
        EndsCall (queueAfter queuedMeanwhile) s' 0 ⟨nightly, .insert⟩ .uniqueViolation :=
  ⟨path_reached (by decide +kernel), by decide +kernel, _,
    step_reached (by decide +kernel), by decide +kernel, .inr rfl, by decide +kernel⟩

end GenericTaskQueue
