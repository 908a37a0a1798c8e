import GenericBackground.Lib.RowStore
import GenericBackground.TaskQueue.Reattempt

/-!
# The transactions of the queue

Every transaction that touches task rows, as a program of the row store: the statements it issues
in order (`Tx.stmts`), each naming one row and what it does to it (`RowAct`). A statement carries
the `WHERE` under which it selects its row (`RowAct.selects`) and says how it locks (`RowAct.mode`);
one that does not select the row neither locks nor writes it.

Task code may do to other rows whatever a user may do over RPC; such statements are `UserAct`s, and
a transaction that runs task code or hooks takes a list of them.
-/

namespace GenericTaskQueue

open Query RowStore

/-! ## What is done to one row -/

/-- What users and task code do to a task. `lookupUniqueKey` is the `SELECT … FOR UPDATE` with which
`create_task` looks for an active task of the same key, `enterPhase` the write of `_start_wave`. -/
inductive UserAct where
  | create (v : TaskVals)
  | lookupUniqueKey (key : String)
  | write (v : UserVals)
  | storePhaseData (vals : List (String × Json))
  | enterPhase (phase : ℕ) (childIds : Option (List TaskId))
  | actionCancel (now : ℕ)
  | actionRetry (eta : Option ℕ)
  | unlink
  deriving DecidableEq, Repr

/-- What any transaction does to a task. The final writes of a task thread carry its runner, crash
recovery carries the runner and the worker that it found. -/
inductive RowAct where
  | user (a : UserAct)
  | assign (worker : WorkerId) (uuid : RunnerId)
  | start (now : ℕ)
  | stuck
  | waitChildren
  | progress (value : ℤ)
  | done (runner : RunnerId) (now : ℕ) (result : Option Json)
  | failure (runner : RunnerId) (now : ℕ) (exc : Exc) (traceback : String) (read : Option Task)
  | lostExecution (runner : Option RunnerId) (worker : Option WorkerId) (now : ℕ) (error : String)
  | autoRetry (now : ℕ)
  | unown
  | lockWaiting
  | move (now : ℕ) (m : ParentMove)
  deriving DecidableEq, Repr

def UserAct.onTask (a : UserAct) (t : Task) : Except TaskError (Option Task) :=
  match a with
  | .create _ => .error (.validationError "duplicate key value violates unique constraint")
  | .lookupUniqueKey _ => .ok (some t)
  | .write v => .ok (some (v.write t))
  | .storePhaseData vals => .ok (some (GenericTaskQueue.storePhaseData vals t))
  | .enterPhase phase childIds => .ok (some (GenericTaskQueue.enterPhase phase childIds t))
  | .actionCancel now => (GenericTaskQueue.actionCancel now t).map some
  | .actionRetry eta => (GenericTaskQueue.actionRetry eta t).map some
  | .unlink => .ok none

def RowAct.onTask (reg : Registry) (a : RowAct) (t : Task) : Except TaskError (Option Task) :=
  match a with
  | .user a => a.onTask t
  | .assign worker uuid => (claimRow worker uuid t).map some
  | .start now => (actionStart now t).map some
  | .stuck => (actionStuck t).map some
  | .waitChildren => (actionWaitChildren t).map some
  | .progress value => .ok (some (setProgress value t))
  | .done _ now result => (actionDone now result t).map some
  | .failure _ now exc traceback read =>
    (handleFailure reg now exc traceback (read.getD t) t).map some
  | .lostExecution _ _ now error => (handleLostExecution reg now error t).map some
  | .autoRetry now => .ok (some (actionAutoRetry (retryEta reg now t.typeCode t.retryCount) t))
  | .unown => .ok (some { t with workerId := none })
  | .lockWaiting => .ok (some t)
  | .move now (.done result) => (actionDone now result t).map some
  | .move now (.fail error) => (actionFail now error none t).map some
  | .move now .cancel => (actionCancel now t).map some

/-- A statement on a row that is not there: only an insert goes through. -/
def RowAct.run (reg : Registry) (a : RowAct) : Option Task → Except TaskError (Option Task)
  | some t => a.onTask reg t
  | none => match a with
    | .user (.create v) => .ok (some v.create)
    | _ => .error (.validationError "Record does not exist or has been deleted.")

/-- The `WHERE` of the statement. Final writes and recovery: `_acquire_finalization`. -/
def RowAct.selects : RowAct → Option Task → Bool
  | .user (.lookupUniqueKey key), some t => t.uniqueKey = some key ∧ t.state ∈ activeStates
  | .stuck, some t => t.state = .running
  | .done runner _ _, some t => finalizable finalStates (some runner) none t
  | .failure runner _ _ _ _, some t => finalizable finalStates (some runner) none t
  | .lostExecution runner worker _ _, some t => finalizable inFlightStates runner worker t
  | .autoRetry _, some t => autoRetryable t
  | .unown, some t => t.state = .waiting
  | .lockWaiting, some t => t.state = .waiting
  | .move _ _, some t => t.state = .waiting
  | _, some _ => true
  | .user (.lookupUniqueKey _), none => false
  | .user _, none => true
  | .start _, none => true
  | .waitChildren, none => true
  | _, none => false

def RowAct.mode : RowAct → Mode
  | .assign _ _ => .skipLocked
  | .progress _ => .skipLocked
  | .done _ _ _ => .skipLocked
  | .failure _ _ _ _ _ => .skipLocked
  | .lostExecution _ _ _ _ => .skipLocked
  | .autoRetry _ => .skipLocked
  | .lockWaiting => .skipLocked
  | _ => .wait

/-- A `SELECT … FOR UPDATE` that nothing is written after. -/
def RowAct.lockOnly : RowAct → Bool
  | .user (.lookupUniqueKey _) => true
  | .lockWaiting => true
  | _ => false

/-- One statement on a row: whether the transaction has written the row, and the row. -/
def RowAct.exec (reg : Registry) (a : RowAct) (p : Bool × Option Task) :
    Except TaskError (Bool × Option Task) :=
  if a.selects p.2 then (a.run reg p.2).map fun o => (p.1 || !a.lockOnly, o) else .ok p

def runActs (reg : Registry) : List RowAct → Bool × Option Task →
    Except TaskError (Bool × Option Task)
  | [], p => .ok p
  | a :: acts, p => (a.exec reg p).bind (runActs reg acts)

/-! ## The transactions -/

/-- How `execute()` ends when it returns. -/
inductive ExecOutcome where
  | returns (result : Option Json)
  | waits
  deriving DecidableEq, Repr

/-- The transactions. `body` is what task code does to task rows; `rank` is the order in which the
database returns rows that tie. The cleanup on startup first lets go of the `waiting` tasks. -/
inductive Tx where
  | user (body : List (TaskId × UserAct))
  | claimTask (c : ClaimArgs) (rank : TaskId → ℕ) (uuid : TaskId → RunnerId)
  | actionStart (runner : RunnerId) (id : TaskId) (now : ℕ)
  | execute (runner : RunnerId) (id : TaskId) (now : ℕ) (body : List (TaskId × UserAct))
      (outcome : ExecOutcome)
  | failureHandler (runner : RunnerId) (id : TaskId) (now : ℕ) (body : List (TaskId × UserAct))
      (exc : Exc) (traceback : String)
  | updateProgress (ticks : List (TaskId × ℤ))
  | timeoutTask (runner : RunnerId) (id : TaskId) (alive : Bool)
  | recoverLostExecutions (waiting ids : List TaskId) (now : ℕ) (error : String)
      (body : List (TaskId × UserAct))
  | resolvedStuckThread (runner : RunnerId) (id : TaskId) (now : ℕ)
      (body : List (TaskId × UserAct))
  | autoRetryFailed (w : TaskQueueWorker) (rank : TaskId → ℕ) (now : ℕ)
  | checkWaitingParent (id : TaskId) (now : ℕ) (body : List (TaskId × UserAct))
      (verdict : Option ParentMove)

/-- What task code does in a transaction. -/
def Tx.body : Tx → List (TaskId × UserAct)
  | .user body => body
  | .execute _ _ _ body _ => body
  | .failureHandler _ _ _ body _ _ => body
  | .recoverLostExecutions _ _ _ _ body => body
  | .resolvedStuckThread _ _ _ body => body
  | .checkWaitingParent _ _ body _ => body
  | _ => []

def UserAct.creates : UserAct → Bool
  | .create _ => true
  | _ => false

/-- The ids that a transaction has drawn from the sequence of the table. -/
def Tx.created (a : Tx) : List TaskId := (a.body.filter fun p => p.2.creates).map Prod.fst

/-- A created row has the id under which it is stored. -/
def UserAct.at (k : TaskId) : UserAct → UserAct
  | .create v => .create { v with id := k }
  | a => a

def userStmts (body : List (TaskId × UserAct)) : List (TaskId × RowAct) :=
  body.map fun p => (p.1, .user (p.2.at p.1))

/-- The rows of a snapshot in the order in which the database returns ties. -/
def ranked (rank : TaskId → ℕ) (σ : Snapshot TaskId Task) : List Task :=
  σ.table.insertionSort fun a b => rank a.id ≤ rank b.id

/-- The error text of `_handle_resolved_stuck_threads`. -/
def resolvedStuckError : String := "Task thread exited without result after timeout"

/-- The statements of a transaction, in order; some are issued only once a row has been locked. -/
def Tx.stmts (reg : Registry) (a : Tx) (σ : Snapshot TaskId Task) (locked : List TaskId) :
    List (TaskId × RowAct) :=
  match a with
  | .user body => userStmts body
  | .claimTask c rank uuid =>
    (claimSelect c (ranked rank σ)).map fun t => (t.id, .assign c.worker (uuid t.id))
  | .actionStart _ id now => [(id, .start now)]
  | .execute runner id now body outcome => userStmts body ++ [match outcome with
    | .returns result => (id, .done runner now result)
    | .waits => (id, .waitChildren)]
  | .failureHandler runner id now body exc traceback =>
    (if (σ.row id).any (retriesFailure exc) then [] else userStmts body) ++
      [(id, .failure runner now exc traceback (σ.row id))]
  | .updateProgress ticks => ticks.map fun p => (p.1, .progress p.2)
  | .timeoutTask _ id alive => if alive then [(id, .stuck)] else []
  | .recoverLostExecutions waiting ids now error body =>
    waiting.map (fun id => (id, .unown)) ++
      (ids.map (fun id => (id, .lostExecution ((σ.row id).bind Task.runnerId)
        ((σ.row id).bind Task.workerId) now error)) ++ if locked = [] then [] else userStmts body)
  | .resolvedStuckThread runner id now body =>
    if (σ.row id).any fun t => t.state = .stuck ∧ t.runnerId = some runner then
      (id, .lostExecution (some runner) none now resolvedStuckError) ::
        if locked = [] then [] else userStmts body
    else []
  | .autoRetryFailed w rank now =>
    ((ranked rank σ).filter fun t => t.channel ∈ w.channels ∧
      t.typeCode ∈ getEffectiveTaskTypes reg w).map fun t => (t.id, .autoRetry now)
  | .checkWaitingParent id now body verdict =>
    (id, .lockWaiting) :: if locked = [] then [] else
      userStmts body ++ verdict.toList.map fun m => (id, .move now m)

/-- The statements of a transaction that has locked a row do not depend on what else it locks. -/
theorem stmts_locked {reg : Registry} {a : Tx} {σ : Snapshot TaskId Task} {L L' : List TaskId}
    (hL : L ≠ []) (hL' : L' ≠ []) : a.stmts reg σ L = a.stmts reg σ L' := by
  cases a <;> simp [Tx.stmts, hL, hL']

def Tx.limit : Tx → Option ℕ
  | .claimTask c _ _ => some c.limit
  | .autoRetryFailed _ _ _ => some 10
  | _ => none

def Tx.acts (reg : Registry) (a : Tx) (σ : Snapshot TaskId Task) (locked : List TaskId)
    (k : TaskId) : List RowAct :=
  ((a.stmts reg σ locked).filter fun p => p.1 = k).map Prod.snd

/-- The transactions as a program of the row store. -/
def prog (reg : Registry) : Prog Tx TaskId Task where
  next a σ L S :=
    if a.limit.any (· ≤ L.length) then none
    else ((a.stmts reg σ L).find? fun p => p.1 ∉ L ∧ p.1 ∉ S ∧ p.2.selects (σ.row p.1)).map
      fun p => (p.2.mode, p.1)
  write a σ L k := match runActs reg (a.acts reg σ L k) (false, σ.row k) with
    | .ok (true, o) => some o
    | _ => none
  valid a σ L := L.all fun k => (runActs reg (a.acts reg σ L k) (false, σ.row k)).isOk
  next_fresh {a σ L S m k} h := by
    split_ifs at h
    obtain ⟨p, hp, heq⟩ := Option.map_eq_some_iff.1 h
    obtain ⟨-, rfl⟩ := Prod.mk.inj heq
    have := List.find?_some hp
    simp only [decide_eq_true_eq] at this
    exact ⟨this.1, this.2.1⟩

theorem next_some {reg : Registry} {a : Tx} {σ : Snapshot TaskId Task} {L S : List TaskId}
    {m : Mode} {k : TaskId} (h : (prog reg).next a σ L S = some (m, k)) :
    ∃ act, (k, act) ∈ a.stmts reg σ L ∧ act.mode = m ∧ act.selects (σ.row k) = true := by
  simp only [prog] at h
  split_ifs at h
  obtain ⟨⟨k', act⟩, hp, heq⟩ := Option.map_eq_some_iff.1 h
  obtain ⟨rfl, rfl⟩ := Prod.mk.inj heq
  have hsel := List.find?_some hp
  simp only [decide_eq_true_eq] at hsel
  exact ⟨act, List.mem_of_find?_eq_some hp, rfl, hsel.2.2⟩

/-- At the end of a transaction without `LIMIT`, every statement has locked its row, left it out, or
does not select it. -/
theorem next_none {reg : Registry} {a : Tx} {σ : Snapshot TaskId Task} {L S : List TaskId}
    (h : (prog reg).next a σ L S = none) (hl : a.limit = none) {k : TaskId} {act : RowAct}
    (hm : (k, act) ∈ a.stmts reg σ L) : k ∈ L ∨ k ∈ S ∨ act.selects (σ.row k) = false := by
  simp only [prog, hl, Option.any_none, Bool.false_eq_true, if_false, Option.map_eq_none_iff,
    List.find?_eq_none, decide_eq_true_eq] at h
  have := h (k, act) hm
  by_cases hL : k ∈ L
  · exact .inl hL
  · by_cases hS : k ∈ S
    · exact .inr (.inl hS)
    · exact .inr (.inr (Bool.eq_false_iff.2 fun hsel => this ⟨hL, hS, hsel⟩))

/-! ## What a statement does to a claimed row -/

/-- How far a claimed task has come. -/
def flightRank : TaskState → ℕ
  | .assigned => 0
  | .running => 1
  | .stuck => 2
  | _ => 3

def IdAt (k : TaskId) (o : Option Task) : Prop := ∀ t, o = some t → t.id = k

/-- What a statement other than a claim keeps of row `k`: the id, and that a task in flight in `o'`
was in flight in `o` already, under the same runner, of the same type and not further on. -/
structure Kept (k : TaskId) (o o' : Option Task) : Prop where
  id : IdAt k o → IdAt k o'
  flight : ∀ t', o' = some t' → t'.state ∈ inFlightStates →
    ∃ t, o = some t ∧ t.state ∈ inFlightStates ∧ t.runnerId = t'.runnerId ∧
      t.typeCode = t'.typeCode ∧ flightRank t.state ≤ flightRank t'.state

theorem Kept.refl (k : TaskId) (o : Option Task) : Kept k o o :=
  ⟨fun h => h, fun t ht hf => ⟨t, ht, hf, rfl, rfl, Nat.le_refl _⟩⟩

theorem Kept.trans {k : TaskId} {o₁ o₂ o₃ : Option Task} (h : Kept k o₁ o₂)
    (h' : Kept k o₂ o₃) : Kept k o₁ o₃ := by
  refine ⟨fun hid => h'.id (h.id hid), fun t₃ ht₃ hf₃ => ?_⟩
  obtain ⟨t₂, ht₂, hf₂, hr₂, hc₂, hk₂⟩ := h'.flight t₃ ht₃ hf₃
  obtain ⟨t₁, ht₁, hf₁, hr₁, hc₁, hk₁⟩ := h.flight t₂ ht₂ hf₂
  exact ⟨t₁, ht₁, hf₁, hr₁.trans hr₂, hc₁.trans hc₂, Nat.le_trans hk₁ hk₂⟩

theorem Kept.of_landed {k : TaskId} {t t' : Task} (hid : t'.id = t.id)
    (h : t'.state ∉ inFlightStates) : Kept k (some t) (some t') := by
  refine ⟨fun h u hu => ?_, fun u hu hf => ?_⟩
  · obtain rfl := Option.some.inj hu; exact hid.trans (h t rfl)
  · obtain rfl := Option.some.inj hu; exact absurd hf h

theorem Kept.of_state {k : TaskId} {t t' : Task} (hid : t'.id = t.id)
    (hf : t'.state ∈ inFlightStates → t.state ∈ inFlightStates)
    (hr : t.runnerId = t'.runnerId) (hc : t.typeCode = t'.typeCode)
    (hk : flightRank t.state ≤ flightRank t'.state) : Kept k (some t) (some t') := by
  refine ⟨fun h u hu => ?_, fun u hu hf' => ?_⟩
  · obtain rfl := Option.some.inj hu; exact hid.trans (h t rfl)
  · obtain rfl := Option.some.inj hu; exact ⟨t, rfl, hf hf', hr, hc, hk⟩

theorem map_some_ok {x : Except TaskError Task} {o : Option Task} (h : x.map some = .ok o) :
    ∃ t, x = .ok t ∧ o = some t := by
  cases x with
  | error e => cases h
  | ok t => exact ⟨t, rfl, (Except.ok.inj h).symm⟩

theorem ok_of_map_some {x : Except TaskError Task} {t : Task} (h : x.map some = .ok (some t)) :
    x = .ok t := by
  obtain ⟨u, hu, heq⟩ := map_some_ok h
  rw [hu, Option.some.inj heq]

theorem of_map_some {P : Task → Prop} {x : Except TaskError Task} {t : Task}
    (hx : ∀ u, x = .ok u → P u) (h : x.map some = .ok (some t)) : P t := hx t (ok_of_map_some h)

theorem checked_some {s : TaskState} {t t' u : Task}
    (h : (do checkTransition s t; return u : Except TaskError Task).map some = .ok (some t')) :
    s ∈ allowedTransitions t.state ∧ t' = u :=
  checked_ok (ok_of_map_some h)

theorem checked_row {s : TaskState} {t u : Task} {o : Option Task}
    (h : (do checkTransition s t; return u : Except TaskError Task).map some = .ok o) :
    s ∈ allowedTransitions t.state ∧ o = some u := by
  obtain ⟨t', ht', rfl⟩ := map_some_ok h
  exact ⟨(checked_ok ht').1, congrArg some (checked_ok ht').2⟩

theorem of_allowed_running {s : TaskState} (h : .running ∈ allowedTransitions s) :
    s = .assigned := by revert h; cases s <;> decide

theorem of_allowed_stuck {s : TaskState} (h : .stuck ∈ allowedTransitions s) : s = .running := by
  revert h; cases s <;> decide

theorem of_allowed_waiting {s : TaskState} (h : .waiting ∈ allowedTransitions s) :
    s = .running := by revert h; cases s <;> decide

theorem handleFailure_landed {reg : Registry} {now : ℕ} {exc : Exc} {tb : String} {read t t' : Task}
    (h : handleFailure reg now exc tb read t = .ok t') :
    t'.id = t.id ∧ t'.state ∉ inFlightStates := by
  rcases handleFailure_cases h with ⟨-, _, rfl⟩ | ⟨-, h⟩
  · exact ⟨rfl, by simp [actionAutoRetry, inFlightStates]⟩
  · obtain ⟨-, rfl⟩ := checked_ok h; exact ⟨rfl, by simp [inFlightStates]⟩

theorem handleLostExecution_landed {reg : Registry} {now : ℕ} {error : String} {t t' : Task}
    (h : handleLostExecution reg now error t = .ok t') :
    t'.id = t.id ∧ t'.state ∉ inFlightStates := by
  rcases handleLostExecution_cases h with ⟨-, h⟩ | ⟨-, -, rfl⟩ | ⟨-, -, h⟩
  · obtain ⟨-, rfl⟩ := checked_ok h; exact ⟨rfl, by simp [inFlightStates]⟩
  · exact ⟨rfl, by simp [actionAutoRetry, inFlightStates]⟩
  · obtain ⟨-, rfl⟩ := checked_ok h; exact ⟨rfl, by simp [inFlightStates]⟩

/-- The task is still in its state, in the same hands and at the same attempt. -/
structure Edited (t t' : Task) : Prop where
  id : t'.id = t.id
  state : t'.state = t.state
  runnerId : t'.runnerId = t.runnerId
  typeCode : t'.typeCode = t.typeCode
  retryCount : t'.retryCount = t.retryCount
  taskError : t'.taskError = t.taskError

theorem Edited.refl (t : Task) : Edited t t := ⟨rfl, rfl, rfl, rfl, rfl, rfl⟩

theorem Edited.trans {t₁ t₂ t₃ : Task} (h : Edited t₁ t₂) (h' : Edited t₂ t₃) : Edited t₁ t₃ :=
  ⟨h'.id.trans h.id, h'.state.trans h.state, h'.runnerId.trans h.runnerId,
    h'.typeCode.trans h.typeCode, h'.retryCount.trans h.retryCount, h'.taskError.trans h.taskError⟩

/-- What a user makes of a task. -/
inductive UserAct.Leaves (t : Task) : Option Task → Prop
  | edited {t' : Task} (h : Edited t t') : Leaves t (some t')
  | cancelled {t' : Task} (hid : t'.id = t.id) (hs : t'.state = .cancelled) : Leaves t (some t')
  | retried {t' : Task} (hid : t'.id = t.id) (hs : t'.state = .pending) : Leaves t (some t')
  | deleted : Leaves t none

theorem UserAct.leaves {a : UserAct} {t : Task} {o : Option Task} (h : a.onTask t = .ok o) :
    UserAct.Leaves t o := by
  cases a with
  | create v => cases h
  | lookupUniqueKey key => obtain rfl := Except.ok.inj h; exact .edited (.refl t)
  | write v => obtain rfl := Except.ok.inj h; exact .edited ⟨rfl, rfl, rfl, rfl, rfl, rfl⟩
  | storePhaseData vals =>
    obtain rfl := Except.ok.inj h
    exact .edited ⟨rfl, rfl, rfl, rfl, rfl, rfl⟩
  | enterPhase phase childIds =>
    obtain rfl := Except.ok.inj h
    exact .edited ⟨rfl, rfl, rfl, rfl, rfl, rfl⟩
  | actionCancel now =>
    obtain ⟨-, rfl⟩ := checked_row h
    exact .cancelled rfl rfl
  | actionRetry eta =>
    obtain ⟨t', h₁, rfl⟩ := map_some_ok h
    obtain ⟨-, rfl⟩ := actionRetry_ok h₁
    exact .retried rfl rfl
  | unlink => obtain rfl := Except.ok.inj h; exact .deleted

theorem UserAct.Leaves.kept {k : TaskId} {t : Task} {o : Option Task} (h : UserAct.Leaves t o) :
    Kept k (some t) o := by
  cases h with
  | edited h =>
    exact .of_state h.id (fun hf => h.state ▸ hf) h.runnerId.symm h.typeCode.symm
      (Nat.le_of_eq (congrArg flightRank h.state.symm))
  | cancelled hid hs => exact .of_landed hid (by rw [hs]; decide)
  | retried hid hs => exact .of_landed hid (by rw [hs]; decide)
  | deleted => exact ⟨fun _ _ h => (by cases h), fun _ h => (by cases h)⟩

/-- A statement on row `k` that no claim issues; a created task has its id. -/
def RowAct.plain (k : TaskId) : RowAct → Bool
  | .assign _ _ => false
  | .user (.create v) => v.id = k
  | _ => true

/-- Only a claim puts a task in flight; every other statement keeps its runner or lands it. -/
theorem RowAct.run_kept {reg : Registry} {k : TaskId} {a : RowAct} {o o' : Option Task}
    (ha : a.plain k = true) (h : a.run reg o = .ok o') : Kept k o o' := by
  rcases o with _ | t
  · -- a created task is pending
    simp only [RowAct.run] at h
    split at h
    · next v =>
      obtain rfl := Except.ok.inj h
      refine ⟨fun _ u hu => ?_, fun u hu hf => ?_⟩
      · obtain rfl := Option.some.inj hu
        exact of_decide_eq_true ha
      · obtain rfl := Option.some.inj hu
        exact absurd hf (by simp [TaskVals.create, inFlightStates])
    · cases h
  change a.onTask reg t = .ok o' at h
  unfold RowAct.onTask at h
  cases a with
  | user a => exact (UserAct.leaves h).kept
  | assign worker uuid => cases ha
  | start now =>
    obtain ⟨hs, rfl⟩ := checked_row h
    have hs := of_allowed_running hs
    exact .of_state rfl (fun _ => by rw [hs]; decide) rfl rfl (by rw [hs]; simp [flightRank])
  | stuck =>
    obtain ⟨hs, rfl⟩ := checked_row h
    have hs := of_allowed_stuck hs
    exact .of_state rfl (fun _ => by rw [hs]; decide) rfl rfl (by rw [hs]; simp [flightRank])
  | waitChildren =>
    obtain ⟨-, rfl⟩ := checked_row h
    exact .of_landed rfl (by simp [inFlightStates])
  | progress value =>
    obtain rfl := Except.ok.inj h
    exact .of_state rfl (fun h => h) rfl rfl (Nat.le_refl _)
  | done runner now result =>
    obtain ⟨-, rfl⟩ := checked_row h
    exact .of_landed rfl (by simp [inFlightStates])
  | failure runner now exc traceback read =>
    obtain ⟨t', h₁, rfl⟩ := map_some_ok h
    obtain ⟨hid, hl⟩ := handleFailure_landed h₁
    exact .of_landed hid hl
  | lostExecution runner worker now error =>
    obtain ⟨t', h₁, rfl⟩ := map_some_ok h
    obtain ⟨hid, hl⟩ := handleLostExecution_landed h₁
    exact .of_landed hid hl
  | autoRetry now =>
    obtain rfl := Except.ok.inj h
    exact .of_landed rfl (by simp [actionAutoRetry, inFlightStates])
  | unown => obtain rfl := Except.ok.inj h; exact .of_state rfl (fun h => h) rfl rfl (Nat.le_refl _)
  | lockWaiting => obtain rfl := Except.ok.inj h; exact .refl _ _
  | move now m =>
    cases m with
    | done result =>
      obtain ⟨-, rfl⟩ := checked_row h
      exact .of_landed rfl (by simp [inFlightStates])
    | fail error =>
      obtain ⟨-, rfl⟩ := checked_row h
      exact .of_landed rfl (by simp [inFlightStates])
    | cancel =>
      obtain ⟨-, rfl⟩ := checked_row h
      exact .of_landed rfl (by simp [inFlightStates])

theorem RowAct.exec_run {reg : Registry} {a : RowAct} {p q : Bool × Option Task}
    (h : a.exec reg p = .ok q) :
    (a.selects p.2 = true ∧ a.run reg p.2 = .ok q.2 ∧ q.1 = (p.1 || !a.lockOnly)) ∨
      (a.selects p.2 = false ∧ q = p) := by
  unfold RowAct.exec at h
  split_ifs at h with hs
  · rcases hr : a.run reg p.2 with e | o
    · rw [hr] at h; cases h
    · rw [hr] at h
      obtain rfl := Except.ok.inj h
      exact .inl ⟨hs, rfl, rfl⟩
  · exact .inr ⟨Bool.eq_false_iff.2 hs, (Except.ok.inj h).symm⟩

theorem RowAct.exec_selected {reg : Registry} {a : RowAct} {p q : Bool × Option Task}
    (hs : a.selects p.2 = true) (h : a.exec reg p = .ok q) : a.run reg p.2 = .ok q.2 := by
  rcases exec_run h with ⟨-, hr, -⟩ | ⟨hn, -⟩
  · exact hr
  · rw [hs] at hn; cases hn

theorem RowAct.exec_kept {reg : Registry} {k : TaskId} {a : RowAct} {p p' : Bool × Option Task}
    (ha : a.plain k = true) (h : a.exec reg p = .ok p') : Kept k p.2 p'.2 := by
  rcases exec_run h with ⟨-, hr, -⟩ | ⟨-, rfl⟩
  · exact run_kept ha hr
  · exact .refl _ _

theorem runActs_cons {reg : Registry} {a : RowAct} {acts : List RowAct} {p p' : Bool × Option Task}
    (h : runActs reg (a :: acts) p = .ok p') :
    ∃ q, a.exec reg p = .ok q ∧ runActs reg acts q = .ok p' := bind_ok h

theorem runActs_append_eq {reg : Registry} (acts acts' : List RowAct) (p : Bool × Option Task) :
    runActs reg (acts ++ acts') p = (runActs reg acts p).bind (runActs reg acts') := by
  induction acts generalizing p with
  | nil => rfl
  | cons a acts ih =>
    show (a.exec reg p).bind (runActs reg (acts ++ acts')) =
      ((a.exec reg p).bind (runActs reg acts)).bind (runActs reg acts')
    cases a.exec reg p with
    | error e => rfl
    | ok q => exact ih q

theorem runActs_append {reg : Registry} {acts acts' : List RowAct} {p q : Bool × Option Task}
    (h : runActs reg (acts ++ acts') p = .ok q) :
    ∃ p', runActs reg acts p = .ok p' ∧ runActs reg acts' p' = .ok q := by
  rw [runActs_append_eq] at h
  exact bind_ok h

/-- **Statements rule.** A preorder that every statement respects relates the rows before and after
a list of statements. -/
theorem runActs_rel {reg : Registry} {R : Option Task → Option Task → Prop} {acts : List RowAct}
    {p q : Bool × Option Task} (hrefl : ∀ o, R o o)
    (htrans : ∀ {o₁ o₂ o₃}, R o₁ o₂ → R o₂ o₃ → R o₁ o₃)
    (ha : ∀ a ∈ acts, ∀ o o', a.selects o = true → a.run reg o = .ok o' → R o o')
    (h : runActs reg acts p = .ok q) : R p.2 q.2 := by
  induction acts generalizing p with
  | nil => obtain rfl := Except.ok.inj h; exact hrefl _
  | cons a acts ih =>
    obtain ⟨p', hp', hrest⟩ := runActs_cons h
    have hlast := ih (fun a hm => ha a (List.mem_cons_of_mem _ hm)) hrest
    rcases RowAct.exec_run hp' with ⟨hs, hr, -⟩ | ⟨-, rfl⟩
    · exact htrans (ha a List.mem_cons_self _ _ hs hr) hlast
    · exact hlast

theorem runActs_kept {reg : Registry} {k : TaskId} {acts : List RowAct}
    {p p' : Bool × Option Task} (ha : ∀ a ∈ acts, a.plain k = true)
    (h : runActs reg acts p = .ok p') : Kept k p.2 p'.2 :=
  runActs_rel (.refl k) .trans (fun a hm _ _ _ hr => RowAct.run_kept (ha a hm) hr) h

theorem mem_acts {reg : Registry} {a : Tx} {σ : Snapshot TaskId Task} {L : List TaskId}
    {k : TaskId} {act : RowAct} : act ∈ a.acts reg σ L k ↔ (k, act) ∈ a.stmts reg σ L := by
  unfold Tx.acts
  rw [List.mem_map]
  constructor
  · rintro ⟨⟨k', act'⟩, hm, rfl⟩
    obtain ⟨hs, hk⟩ := List.mem_filter.1 hm
    obtain rfl : k' = k := of_decide_eq_true hk
    exact hs
  · exact fun hm => ⟨(k, act), List.mem_filter.2 ⟨hm, decide_eq_true rfl⟩, rfl⟩

/-- The statements that a transaction may issue on row `k`. -/
inductive Tx.Issues (σ : Snapshot TaskId Task) (k : TaskId) : Tx → RowAct → Prop
  | user (a : Tx) (u : UserAct) : Issues σ k a (.user (u.at k))
  | assign (c : ClaimArgs) (rank : TaskId → ℕ) (uuid : TaskId → RunnerId) :
      Issues σ k (.claimTask c rank uuid) (.assign c.worker (uuid k))
  | start (r : RunnerId) (now : ℕ) : Issues σ k (.actionStart r k now) (.start now)
  | done (r : RunnerId) (now : ℕ) (body : List (TaskId × UserAct)) (result : Option Json) :
      Issues σ k (.execute r k now body (.returns result)) (.done r now result)
  | waitChildren (r : RunnerId) (now : ℕ) (body : List (TaskId × UserAct)) :
      Issues σ k (.execute r k now body .waits) .waitChildren
  | failure (r : RunnerId) (now : ℕ) (body : List (TaskId × UserAct)) (exc : Exc)
      (traceback : String) :
      Issues σ k (.failureHandler r k now body exc traceback)
        (.failure r now exc traceback (σ.row k))
  | progress (ticks : List (TaskId × ℤ)) (value : ℤ) :
      Issues σ k (.updateProgress ticks) (.progress value)
  | stuck (r : RunnerId) : Issues σ k (.timeoutTask r k true) .stuck
  | unown (waiting ids : List TaskId) (now : ℕ) (error : String)
      (body : List (TaskId × UserAct)) :
      Issues σ k (.recoverLostExecutions waiting ids now error body) .unown
  | recovered (waiting ids : List TaskId) (now : ℕ) (error : String)
      (body : List (TaskId × UserAct)) :
      Issues σ k (.recoverLostExecutions waiting ids now error body)
        (.lostExecution ((σ.row k).bind Task.runnerId) ((σ.row k).bind Task.workerId) now error)
  | resolved (r : RunnerId) (now : ℕ) (body : List (TaskId × UserAct))
      (h : (σ.row k).any (fun t => t.state = .stuck ∧ t.runnerId = some r) = true) :
      Issues σ k (.resolvedStuckThread r k now body)
        (.lostExecution (some r) none now resolvedStuckError)
  | autoRetry (w : TaskQueueWorker) (rank : TaskId → ℕ) (now : ℕ) :
      Issues σ k (.autoRetryFailed w rank now) (.autoRetry now)
  | lockWaiting (now : ℕ) (body : List (TaskId × UserAct)) (verdict : Option ParentMove) :
      Issues σ k (.checkWaitingParent k now body verdict) .lockWaiting
  | move (now : ℕ) (body : List (TaskId × UserAct)) (m : ParentMove) :
      Issues σ k (.checkWaitingParent k now body (some m)) (.move now m)

theorem issues_userStmts {a : Tx} {σ : Snapshot TaskId Task} {k : TaskId} {act : RowAct}
    {body : List (TaskId × UserAct)} (h : (k, act) ∈ userStmts body) : a.Issues σ k act := by
  obtain ⟨⟨k', u⟩, -, hp⟩ := List.mem_map.1 h
  obtain ⟨rfl, rfl⟩ := Prod.mk.inj hp
  exact .user a u

theorem stmts_issues {reg : Registry} {a : Tx} {σ : Snapshot TaskId Task} {L : List TaskId}
    {k : TaskId} {act : RowAct} (h : (k, act) ∈ a.stmts reg σ L) : a.Issues σ k act := by
  cases a <;> simp only [Tx.stmts] at h
  case user body => exact issues_userStmts h
  case claimTask c rank uuid =>
    obtain ⟨t, -, hp⟩ := List.mem_map.1 h
    obtain ⟨rfl, rfl⟩ := Prod.mk.inj hp
    exact .assign c rank uuid
  case actionStart runner id now =>
    obtain ⟨rfl, rfl⟩ := Prod.mk.inj (List.mem_singleton.1 h)
    exact .start runner now
  case execute runner id now body outcome =>
    rcases List.mem_append.1 h with h | h
    · exact issues_userStmts h
    · cases outcome with
      | returns result =>
        obtain ⟨rfl, rfl⟩ := Prod.mk.inj (List.mem_singleton.1 h)
        exact .done runner now body result
      | waits =>
        obtain ⟨rfl, rfl⟩ := Prod.mk.inj (List.mem_singleton.1 h)
        exact .waitChildren runner now body
  case failureHandler runner id now body exc traceback =>
    rcases List.mem_append.1 h with h | h
    · split_ifs at h
      · exact absurd h List.not_mem_nil
      · exact issues_userStmts h
    · obtain ⟨rfl, rfl⟩ := Prod.mk.inj (List.mem_singleton.1 h)
      exact .failure runner now body exc traceback
  case updateProgress ticks =>
    obtain ⟨⟨k', v⟩, -, hp⟩ := List.mem_map.1 h
    obtain ⟨rfl, rfl⟩ := Prod.mk.inj hp
    exact .progress ticks v
  case timeoutTask runner id alive =>
    split_ifs at h with ha
    · obtain ⟨rfl, rfl⟩ := Prod.mk.inj (List.mem_singleton.1 h)
      rw [ha]
      exact .stuck runner
    · exact absurd h List.not_mem_nil
  case recoverLostExecutions waiting ids now error body =>
    rcases List.mem_append.1 h with h | h
    · obtain ⟨id, -, hp⟩ := List.mem_map.1 h
      obtain ⟨rfl, rfl⟩ := Prod.mk.inj hp
      exact .unown waiting ids now error body
    · rcases List.mem_append.1 h with h | h
      · obtain ⟨id, -, hp⟩ := List.mem_map.1 h
        obtain ⟨rfl, rfl⟩ := Prod.mk.inj hp
        exact .recovered waiting ids now error body
      · split_ifs at h
        · exact absurd h List.not_mem_nil
        · exact issues_userStmts h
  case resolvedStuckThread runner id now body =>
    split_ifs at h with hst hL
    · obtain ⟨rfl, rfl⟩ := Prod.mk.inj (List.mem_singleton.1 h)
      exact .resolved runner now body hst
    · rcases List.mem_cons.1 h with h | h
      · obtain ⟨rfl, rfl⟩ := Prod.mk.inj h
        exact .resolved runner now body hst
      · exact issues_userStmts h
    · exact absurd h List.not_mem_nil
  case autoRetryFailed w rank now =>
    obtain ⟨t, -, hp⟩ := List.mem_map.1 h
    obtain ⟨rfl, rfl⟩ := Prod.mk.inj hp
    exact .autoRetry w rank now
  case checkWaitingParent id now body verdict =>
    rcases List.mem_cons.1 h with h | h
    · obtain ⟨rfl, rfl⟩ := Prod.mk.inj h
      exact .lockWaiting now body verdict
    · split_ifs at h
      · exact absurd h List.not_mem_nil
      · rcases List.mem_append.1 h with h | h
        · exact issues_userStmts h
        · obtain ⟨m, hm, hp⟩ := List.mem_map.1 h
          obtain ⟨rfl, rfl⟩ := Prod.mk.inj hp
          rw [Option.mem_toList.1 hm]
          exact .move now body m

theorem mem_userStmts {k : TaskId} {act : RowAct} {body : List (TaskId × UserAct)} :
    (k, act) ∈ userStmts body ↔ ∃ u, (k, u) ∈ body ∧ act = .user (u.at k) := by
  unfold userStmts
  rw [List.mem_map]
  constructor
  · rintro ⟨⟨k', u⟩, hm, hp⟩
    obtain ⟨rfl, rfl⟩ := Prod.mk.inj hp
    exact ⟨u, hm, rfl⟩
  · rintro ⟨u, hm, rfl⟩
    exact ⟨(k, u), hm, rfl⟩

/-- What task code does is what a transaction does as a user. -/
theorem user_stmts {reg : Registry} {a : Tx} {σ : Snapshot TaskId Task} {L : List TaskId}
    {k : TaskId} {u : UserAct} (h : (k, .user u) ∈ a.stmts reg σ L) :
    ∃ v, (k, v) ∈ a.body ∧ u = v.at k := by
  have key : ∀ {body : List (TaskId × UserAct)}, (k, RowAct.user u) ∈ userStmts body →
      ∃ v, (k, v) ∈ body ∧ u = v.at k := by
    intro body hm
    obtain ⟨v, hv, heq⟩ := mem_userStmts.1 hm
    exact ⟨v, hv, RowAct.user.inj heq⟩
  cases a <;> simp only [Tx.stmts] at h <;> unfold Tx.body
  case user body => exact key h
  case claimTask => simp at h
  case actionStart => simp at h
  case execute outcome => cases outcome <;> exact key (by simpa using h)
  case failureHandler =>
    split_ifs at h
    · simp at h
    · exact key (by simpa using h)
  case updateProgress => simp at h
  case timeoutTask => split_ifs at h <;> simp at h
  case recoverLostExecutions =>
    split_ifs at h
    · simp at h
    · exact key (by simpa using h)
  case resolvedStuckThread =>
    split_ifs at h
    · simp at h
    · exact key (by simpa using h)
    · simp at h
  case autoRetryFailed => simp at h
  case checkWaitingParent =>
    split_ifs at h
    · simp at h
    · exact key (by simpa using h)

/-- The failure handler runs the hook `on_failure` unless it requeues the task. -/
theorem failureHandler_stmts {reg : Registry} {r : RunnerId} {k : TaskId} {now : ℕ}
    {body : List (TaskId × UserAct)} {exc : Exc} {tb : String} {σ : Snapshot TaskId Task}
    {L : List TaskId} : ∃ hook, (Tx.failureHandler r k now body exc tb).stmts reg σ L =
      userStmts hook ++ [(k, .failure r now exc tb (σ.row k))] := by
  by_cases h : (σ.row k).any (retriesFailure exc) = true
  · exact ⟨[], by rw [Tx.stmts, if_pos h]; rfl⟩
  · exact ⟨body, by rw [Tx.stmts, if_neg h]⟩

theorem plain_user {k : TaskId} (u : UserAct) : (RowAct.user (u.at k)).plain k = true := by
  cases u with
  | create v => exact decide_eq_true rfl
  | _ => rfl

theorem Tx.Issues.plain {a : Tx} {σ : Snapshot TaskId Task} {k : TaskId} {act : RowAct}
    (h : a.Issues σ k act) (ha : ∀ c rank uuid, a ≠ .claimTask c rank uuid) :
    act.plain k = true := by
  cases h with
  | user a u => exact plain_user u
  | assign c rank uuid => exact absurd rfl (ha c rank uuid)
  | _ => rfl

theorem plain_acts {reg : Registry} {a : Tx} {σ : Snapshot TaskId Task} {L : List TaskId}
    {k : TaskId} (ha : ∀ c rank uuid, a ≠ .claimTask c rank uuid) :
    ∀ act ∈ a.acts reg σ L k, act.plain k = true :=
  fun _ hm => (stmts_issues (mem_acts.1 hm)).plain ha

theorem write_ok {reg : Registry} {a : Tx} {σ : Snapshot TaskId Task} {L : List TaskId}
    {k : TaskId} {o : Option Task} (h : (prog reg).write a σ L k = some o) :
    runActs reg (a.acts reg σ L k) (false, σ.row k) = .ok (true, o) := by
  simp only [prog] at h
  split at h
  · next o' heq => obtain rfl := Option.some.inj h; exact heq
  · cases h

theorem write_of_run {reg : Registry} {a : Tx} {σ : Snapshot TaskId Task} {L : List TaskId}
    {k : TaskId} {b : Bool} {o : Option Task}
    (h : runActs reg (a.acts reg σ L k) (false, σ.row k) = .ok (b, o)) :
    (prog reg).write a σ L k = if b then some o else none := by
  simp only [prog, h]
  cases b <;> rfl

theorem write_kept {reg : Registry} {a : Tx} {σ : Snapshot TaskId Task} {L : List TaskId}
    {k : TaskId} {o : Option Task} (ha : ∀ c rank uuid, a ≠ .claimTask c rank uuid)
    (h : (prog reg).write a σ L k = some o) : Kept k (σ.row k) o :=
  runActs_kept (plain_acts ha) (write_ok h)

/-- An assignment takes a pending task; there is nothing to assign on a missing row. -/
theorem assign_exec {reg : Registry} {w : WorkerId} {r : RunnerId} {p q : Bool × Option Task}
    (h : (RowAct.assign w r).exec reg p = .ok q) :
    (p.2 = none ∧ q = p) ∨
      ∃ t, p.2 = some t ∧ t.state = .pending ∧ q = (true, some (t.assigned w r)) := by
  obtain ⟨b, o⟩ := p
  rcases o with _ | t
  · exact .inl ⟨rfl, (Except.ok.inj h).symm⟩
  · change ((claimRow w r t).map some).map (fun o => (b || true, o)) = .ok q at h
    rcases hc : claimRow w r t with e | t'
    · rw [hc] at h; cases h
    · rw [hc] at h
      obtain ⟨hp, rfl⟩ := claimRow_eq hc
      exact .inr ⟨t, rfl, hp, by rw [← Except.ok.inj h, Bool.or_true]⟩

theorem runActs_assign_none {reg : Registry} {w : WorkerId} {r : RunnerId} {acts : List RowAct}
    {p q : Bool × Option Task} (hall : ∀ a ∈ acts, a = .assign w r) (hp : p.2 = none)
    (h : runActs reg acts p = .ok q) : q = p := by
  induction acts with
  | nil => exact (Except.ok.inj h).symm
  | cons a acts ih =>
    obtain rfl := hall a List.mem_cons_self
    obtain ⟨p', hp', hrest⟩ := runActs_cons h
    rcases assign_exec hp' with ⟨-, rfl⟩ | ⟨t, ht, -⟩
    · exact ih (fun a hm => hall a (List.mem_cons_of_mem _ hm)) hrest
    · rw [hp] at ht; cases ht

theorem write_claim {reg : Registry} {c : ClaimArgs} {rank : TaskId → ℕ} {uuid : TaskId → RunnerId}
    {σ : Snapshot TaskId Task} {L : List TaskId} {k : TaskId} {o : Option Task}
    (h : (prog reg).write (.claimTask c rank uuid) σ L k = some o) :
    ∃ t, σ.row k = some t ∧ t.state = .pending ∧ o = some (t.assigned c.worker (uuid k)) := by
  have hall : ∀ act ∈ (Tx.claimTask c rank uuid).acts reg σ L k,
      act = .assign c.worker (uuid k) := by
    intro act hm
    obtain ⟨t, -, ht⟩ := List.mem_map.1 (mem_acts.1 hm)
    obtain ⟨rfl, rfl⟩ := Prod.mk.inj ht
    rfl
  have hrun := write_ok h
  revert hall hrun
  generalize (Tx.claimTask c rank uuid).acts reg σ L k = acts
  intro hall hrun
  cases acts with
  | nil => cases hrun
  | cons a acts =>
    obtain rfl := hall a List.mem_cons_self
    obtain ⟨q, hq, hrest⟩ := runActs_cons hrun
    rcases assign_exec hq with ⟨hnone, rfl⟩ | ⟨t, ht, hp, rfl⟩
    · -- no row to assign, and nothing is written
      have := runActs_assign_none (fun act hm => hall act (List.mem_cons_of_mem _ hm)) hnone hrest
      cases this
    · cases acts with
      | nil =>
        obtain ⟨-, rfl⟩ := Prod.mk.inj (Except.ok.inj hrest)
        exact ⟨t, ht, hp, rfl⟩
      | cons b acts =>
        -- an assigned task is not assigned again
        obtain rfl := hall b (List.mem_cons_of_mem _ List.mem_cons_self)
        obtain ⟨q, hq, -⟩ := runActs_cons hrest
        rcases assign_exec hq with ⟨hnone, -⟩ | ⟨u, hu, hp', -⟩
        · cases hnone
        · obtain rfl := Option.some.inj hu
          cases hp'

/-! ## What a commit leaves -/

variable {reg : Registry}

theorem lockOnly_run {a : RowAct} {o o' : Option Task} (ha : a.lockOnly = true)
    (hs : a.selects o = true) (h : a.run reg o = .ok o') : o' = o := by
  rcases o with _ | t
  · cases a with
    | user a =>
      cases a with
      | lookupUniqueKey key => cases hs
      | _ => cases ha
    | lockWaiting => cases hs
    | _ => cases ha
  · cases a with
    | user a =>
      cases a with
      | lookupUniqueKey key => exact (Except.ok.inj h).symm
      | _ => cases ha
    | lockWaiting => exact (Except.ok.inj h).symm
    | _ => cases ha

theorem RowAct.exec_unwritten {a : RowAct} {p q : Bool × Option Task}
    (h : a.exec reg p = .ok q) (hq : q.1 = false) : p.1 = false ∧ q.2 = p.2 := by
  rcases exec_run h with ⟨hs, hr, hw⟩ | ⟨-, rfl⟩
  · obtain ⟨hp, ha⟩ := Bool.or_eq_false_iff.1 (hw.symm.trans hq)
    exact ⟨hp, lockOnly_run (by simpa using ha) hs hr⟩
  · exact ⟨hq, rfl⟩

theorem runActs_unwritten {acts : List RowAct} {p q : Bool × Option Task}
    (h : runActs reg acts p = .ok q) (hq : q.1 = false) : p.1 = false ∧ q.2 = p.2 := by
  induction acts generalizing p with
  | nil => obtain rfl := Except.ok.inj h; exact ⟨hq, rfl⟩
  | cons a acts ih =>
    obtain ⟨p', hp', hrest⟩ := runActs_cons h
    obtain ⟨h1, h2⟩ := ih hrest
    obtain ⟨h3, h4⟩ := RowAct.exec_unwritten hp' h1
    exact ⟨h3, h2.trans h4⟩

theorem commit_row {s s' : Db Tx TaskId Task} (hw : s.Wf (prog reg)) {i : ℕ}
    {x : Txn Tx TaskId Task} (h : Step (prog reg) s (.commit i) s') (hx : s.txns i = some x)
    {k : TaskId} (hk : k ∈ x.locked) :
    ∃ b, runActs reg (x.act.acts reg x.snap x.locked k) (false, s.cur.row k) =
      .ok (b, s'.cur.row k) := by
  cases h with
  | @commit _ y hy hn hv =>
    obtain rfl := Option.some.inj (hx.symm.trans hy)
    have hrow := (hw.txn i x hx).locked_row hk
    have hok := List.all_eq_true.1 hv k hk
    rw [← hrow]
    rcases hrun : runActs reg (x.act.acts reg x.snap x.locked k) (false, x.snap.row k) with
      e | ⟨b, o⟩
    · rw [hrun] at hok; cases hok
    · cases b with
      | true =>
        have hwr : x.written (prog reg) k = some o := by
          rw [Txn.written_of_mem hk]
          simp only [prog, hrun]
        exact ⟨true, by rw [show _ = o from Txn.apply_row_of_some hwr]⟩
      | false =>
        have hwr : x.written (prog reg) k = none := by
          rw [Txn.written_of_mem hk]
          simp only [prog, hrun]
        obtain ⟨-, rfl⟩ : _ ∧ o = x.snap.row k := runActs_unwritten hrun rfl
        exact ⟨false, by rw [show _ = _ from Txn.apply_row_of_none hwr, ← hrow]⟩

/-- Statement `a` of transaction `x` on row `k` goes through: the statements before it leave the
row as `o`, and `a` selects that. -/
def GoesThrough (reg : Registry) (x : Txn Tx TaskId Task) (k : TaskId) (a : RowAct)
    (o : Option Task) : Prop :=
  k ∈ x.locked ∧ ∃ pre post b, x.act.acts reg x.snap x.locked k = pre ++ a :: post ∧
    runActs reg pre (false, x.snap.row k) = .ok (b, o) ∧ a.selects o = true

theorem GoesThrough.issues {x : Txn Tx TaskId Task} {k : TaskId} {a : RowAct} {o : Option Task}
    (h : GoesThrough reg x k a o) : x.act.Issues x.snap k a := by
  obtain ⟨-, pre, post, b, hacts, -⟩ := h
  exact stmts_issues (mem_acts.1 (hacts ▸ List.mem_append_right _ List.mem_cons_self))

theorem GoesThrough.kept {x : Txn Tx TaskId Task} {k : TaskId} {a : RowAct} {o : Option Task}
    (h : GoesThrough reg x k a o) (hx : ∀ c rank uuid, x.act ≠ .claimTask c rank uuid) :
    Kept k (x.snap.row k) o := by
  obtain ⟨-, pre, post, b, hacts, hrun, -⟩ := h
  exact runActs_kept (fun act hm => plain_acts hx act (hacts ▸ List.mem_append_left _ hm)) hrun

theorem mem_ranked {rank : TaskId → ℕ} {σ : Snapshot TaskId Task} {t : Task} :
    t ∈ ranked rank σ ↔ t ∈ σ.table := by
  unfold ranked
  exact List.mem_insertionSort _

theorem claim_locked {cur : Snapshot TaskId Task} {x : Txn Tx TaskId Task}
    (hx : TxnOk (prog reg) cur x) (hid : ∀ k, IdAt k (x.snap.row k))
    {c : ClaimArgs} {rank : TaskId → ℕ} {uuid : TaskId → RunnerId}
    (ha : x.act = .claimTask c rank uuid) {k : TaskId} (hk : k ∈ x.locked) :
    ∃ t, x.snap.row k = some t ∧ t.id = k ∧ t ∈ claimSelect c (ranked rank x.snap) := by
  obtain ⟨L, S, m, hn⟩ := hx.asked k hk
  obtain ⟨act, hm, -⟩ := next_some hn
  rw [ha] at hm
  obtain ⟨t, ht, hp⟩ := List.mem_map.1 hm
  obtain ⟨rfl, -⟩ := Prod.mk.inj hp
  obtain ⟨k', hk'⟩ := (Snapshot.mem_table hx.snap).1 (mem_ranked.1 (claimSelect_pending ht).1)
  obtain rfl := hid k' t hk'
  exact ⟨t, hk', rfl, ht⟩

end GenericTaskQueue
