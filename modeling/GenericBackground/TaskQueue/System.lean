import GenericBackground.Lib.Path
import GenericBackground.TaskQueue.Transactions

/-!
# Workers, task threads and the table

The task table, and the task threads that workers have spawned. A claim that commits spawns a
thread for each row it took; the thread marks its task as running (phase 1), executes it (phase 2)
and, when that transaction does not commit, handles the failure, each in a transaction of its own.
The supervisor loop of a worker finds threads that have ended (`finalizeCompleted`), marks overdue
ones stuck, and checks the timed-out threads that have ended. Anything else that touches the table
runs as a transaction at any time.

`Inv` holds in every reachable state: a task in flight under runner `r` is the task of `r`'s
thread, and no other; a snapshot taken by a thread of `r` is no younger than `r`'s claim.
-/

namespace GenericTaskQueue

open RowStore Lts

inductive Phase where
  | spawned
  | starting
  | started
  | executing
  | failing
  | handling
  | ended
  deriving DecidableEq, Repr

/-- Where a worker has a thread: among its `_active_tasks`, among the resolved stuck threads that it
is going to check or is checking, or removed. -/
inductive Tracked where
  | active
  | resolving
  | recovering
  | removed
  deriving DecidableEq, Repr

/-- `_TaskThread`. `dropped` records that a final write of the thread found its row locked. -/
structure Thread where
  runner : RunnerId
  task : TaskId
  worker : WorkerId
  phase : Phase := .spawned
  timedOut : Bool := false
  tracked : Tracked := .active
  dropped : Bool := false
  deriving DecidableEq, Repr

structure Sys where
  db : Db Tx TaskId Task
  threads : List Thread

inductive Ev where
  | db (e : Event Tx)
  | kill (runner : RunnerId)
  | finalizeCompleted (worker : WorkerId)

/-! ## Threads and their transactions -/

/-- The thread that a transaction belongs to, or that it is about: its runner and its task. -/
def Tx.owner : Tx → Option (RunnerId × TaskId)
  | .actionStart r id _ => some (r, id)
  | .execute r id _ _ _ => some (r, id)
  | .failureHandler r id _ _ _ _ => some (r, id)
  | .timeoutTask r id _ => some (r, id)
  | .resolvedStuckThread r id _ _ => some (r, id)
  | _ => none

def Thread.owns (th : Thread) (a : Tx) : Bool := a.owner = some (th.runner, th.task)

/-- The thread is where this transaction begins. -/
def Thread.ready (th : Thread) : Tx → Bool
  | .actionStart _ _ _ => th.phase = .spawned
  | .execute _ _ _ _ _ => th.phase = .started
  | .failureHandler _ _ _ _ _ _ => th.phase = .failing
  -- a thread that was alive may have ended before the snapshot
  | .timeoutTask _ _ alive => th.tracked = .active ∧ th.timedOut = false ∧
      (alive = false → th.phase = .ended)
  | .resolvedStuckThread _ _ _ _ => th.tracked = .resolving
  | _ => false

/-- What the beginning of a transaction changes in its thread. -/
def Thread.begun (th : Thread) : Tx → Thread
  | .actionStart _ _ _ => { th with phase := .starting }
  | .execute _ _ _ _ _ => { th with phase := .executing }
  | .failureHandler _ _ _ _ _ _ => { th with phase := .handling }
  | .resolvedStuckThread _ _ _ _ => { th with tracked := .recovering }
  | _ => th

def Thread.committed (th : Thread) : Tx → Thread
  | .actionStart _ _ _ => { th with phase := .started }
  | .execute _ _ _ _ _ => { th with phase := .ended }
  | .failureHandler _ _ _ _ _ _ => { th with phase := .ended }
  | .timeoutTask _ _ _ => { th with timedOut := true }
  | .resolvedStuckThread _ _ _ _ => { th with tracked := .removed }
  | _ => th

/-- An exception in phase 2 leads to the failure handler; one anywhere else is only logged. -/
def Thread.aborted (th : Thread) : Tx → Thread
  | .actionStart _ _ _ => { th with phase := .ended }
  | .execute _ _ _ _ _ => { th with phase := .failing }
  | .failureHandler _ _ _ _ _ _ => { th with phase := .ended }
  | .timeoutTask _ _ _ => { th with timedOut := true }
  | .resolvedStuckThread _ _ _ _ => { th with tracked := .removed }
  | _ => th

def Thread.skipped (th : Thread) : Tx → Thread
  | .execute _ _ _ _ _ => { th with dropped := true }
  | .failureHandler _ _ _ _ _ _ => { th with dropped := true }
  | _ => th

def Phase.idle : Phase → Bool
  | spawned => true
  | started => true
  | failing => true
  | _ => false

/-- `_finalize_completed` on one thread. -/
def Thread.finalize (th : Thread) : Thread :=
  if th.tracked = .active ∧ th.phase = .ended then
    { th with tracked := if th.timedOut then .resolving else .removed }
  else th

/-- What an event changes in the thread that its transaction belongs to. -/
def Thread.onTxn (f : Tx → Thread) (th : Thread) (x : Option (Txn Tx TaskId Task)) : Thread :=
  match x with
  | some x => if th.owns x.act then f x.act else th
  | none => th

def Thread.after (s : Sys) (ev : Ev) (th : Thread) : Thread :=
  match ev with
  | .db (.begin a) => if th.owns a then th.begun a else th
  | .db (.lock _) => th
  | .db (.skip i) => th.onTxn th.skipped (s.db.txns i)
  | .db (.commit i) => th.onTxn th.committed (s.db.txns i)
  | .db (.abort i) => th.onTxn th.aborted (s.db.txns i)
  | .kill r => if th.runner = r ∧ th.phase.idle then { th with phase := .ended } else th
  | .finalizeCompleted w => if th.worker = w then th.finalize else th

/-- The threads that a claim spawns when it commits. -/
def spawned (x : Txn Tx TaskId Task) : List Thread :=
  match x.act with
  | .claimTask c _ uuid => x.locked.map fun k => { runner := uuid k, task := k, worker := c.worker }
  | _ => []

def Sys.spawns (s : Sys) : Ev → List Thread
  | .db (.commit i) => (s.db.txns i).elim [] spawned
  | _ => []

/-! ## Steps -/

/-- Transactions of a thread begin as its phase allows; the ids of created tasks and the uuids of a
claim are new. -/
def Sys.allows (s : Sys) : Event Tx → Bool
  | .begin a => (a.owner.isNone || s.threads.any fun th => th.owns a && th.ready a) &&
      a.created.all (· ∉ s.db.cur.keys)
  | .commit i => (s.db.txns i).all fun x => ((spawned x).map Thread.runner).Nodup ∧
      ∀ r ∈ (spawned x).map Thread.runner, r ∉ s.threads.map Thread.runner
  | _ => true

/-- One step. A thread between two transactions may die, or never have started; in the midst of
one, its transaction aborts first. -/
def Sys.step (reg : Registry) (s : Sys) (ev : Ev) : Option Sys :=
  match ev with
  | .db e => if s.allows e then (RowStore.step (prog reg) s.db e).map fun db =>
      ⟨db, s.spawns ev ++ s.threads.map (Thread.after s ev)⟩ else none
  | _ => some ⟨s.db, s.threads.map (Thread.after s ev)⟩

/-- The states from which runs start: any table without a task in flight, no transaction open, no
thread. -/
structure Start (s : Sys) : Prop where
  ok : s.db.cur.Ok
  no_txn : ∀ i, s.db.txns i = none
  ids : ∀ k, IdAt k (s.db.cur.row k)
  idle : ∀ k t, s.db.cur.row k = some t → t.state ∉ inFlightStates
  no_thread : s.threads = []

/-- The rows of a table, and nothing running. -/
def Sys.init (T : Table) : Sys := ⟨Db.init ⟨T.get, fun _ => 0, T.rows.map Task.id⟩, []⟩

theorem Start.init {T : Table} (h : ∀ t ∈ T.rows, t.state ∉ inFlightStates) :
    Start (Sys.init T) where
  ok := ⟨fun k t ht => by
    obtain ⟨hm, rfl⟩ := Table.get_eq_some_iff.1 ht
    exact List.mem_map_of_mem hm, T.nodup⟩
  no_txn _ := rfl
  ids _ _ ht := (Table.get_eq_some_iff.1 ht).2
  idle _ t ht := h t (Table.get_eq_some_iff.1 ht).1
  no_thread := rfl

def oneTask : Table where
  rows := [{ id := 1, name := "export", typeCode := "export", retryPolicy := .retryAny
             maxRetries := 3, dateCreated := 10, createUid := 2 }]
  nodup := by simp

def exportClaim (limit : ℕ) : ClaimArgs :=
  { worker := 1, channels := ["default"], taskTypes := ["export"], singletonTypes := []
    limit := limit, now := 100 }

/-! ## Steps by what they do -/

variable {reg : Registry} {s s' : Sys} {ev : Ev}

theorem Sys.step_threads (h : s.step reg ev = some s') :
    s'.threads = s.spawns ev ++ s.threads.map (Thread.after s ev) := by
  unfold Sys.step at h
  split at h
  · split_ifs at h
    obtain ⟨db, -, rfl⟩ := Option.map_eq_some_iff.1 h
    rfl
  · next hne =>
    obtain rfl := Option.some.inj h
    cases ev with
    | db e => exact absurd rfl (hne e)
    | kill r => rfl
    | finalizeCompleted w => rfl

theorem Sys.step_db (h : s.step reg ev = some s') :
    (∃ e, ev = .db e ∧ s.allows e = true ∧ Step (prog reg) s.db e s'.db) ∨
      ((∀ e, ev ≠ .db e) ∧ s'.db = s.db) := by
  unfold Sys.step at h
  split at h
  · next e =>
    split_ifs at h with ha
    obtain ⟨db, hdb, rfl⟩ := Option.map_eq_some_iff.1 h
    exact .inl ⟨e, rfl, ha, step_iff.1 hdb⟩
  · next hne =>
    obtain rfl := Option.some.inj h
    exact .inr ⟨hne, rfl⟩

theorem Sys.step_of_db {e : Event Tx} (h : s.step reg (.db e) = some s') :
    s.allows e = true ∧ Step (prog reg) s.db e s'.db := by
  rcases Sys.step_db h with ⟨e', he, ha, hs⟩ | ⟨hne, -⟩
  · obtain rfl := Ev.db.inj he
    exact ⟨ha, hs⟩
  · exact absurd rfl (hne e)

/-- What a step may change in a thread. -/
inductive Thread.Change (s : Sys) (th : Thread) : Ev → Thread → Prop
  | same (ev : Ev) : Change s th ev th
  | begin {a : Tx} (ho : a.owner = some (th.runner, th.task)) :
      Change s th (.db (.begin a)) (th.begun a)
  | skip {i : ℕ} {x : Txn Tx TaskId Task} (hx : s.db.txns i = some x)
      (ho : x.act.owner = some (th.runner, th.task)) :
      Change s th (.db (.skip i)) (th.skipped x.act)
  | commit {i : ℕ} {x : Txn Tx TaskId Task} (hx : s.db.txns i = some x)
      (ho : x.act.owner = some (th.runner, th.task)) :
      Change s th (.db (.commit i)) (th.committed x.act)
  | abort {i : ℕ} {x : Txn Tx TaskId Task} (hx : s.db.txns i = some x)
      (ho : x.act.owner = some (th.runner, th.task)) :
      Change s th (.db (.abort i)) (th.aborted x.act)
  | kill (hp : th.phase.idle = true) : Change s th (.kill th.runner) { th with phase := .ended }
  | finalize : Change s th (.finalizeCompleted th.worker) th.finalize

theorem Thread.onTxn_cases (f : Tx → Thread) (th : Thread) (x : Option (Txn Tx TaskId Task)) :
    th.onTxn f x = th ∨ ∃ y, x = some y ∧ y.act.owner = some (th.runner, th.task) ∧
      th.onTxn f x = f y.act := by
  unfold Thread.onTxn
  split
  · next y =>
    split_ifs with h
    · exact .inr ⟨y, rfl, of_decide_eq_true h, rfl⟩
    · exact .inl rfl
  · exact .inl rfl

theorem Thread.after_change (s : Sys) (ev : Ev) (th : Thread) :
    Thread.Change s th ev (th.after s ev) := by
  cases ev with
  | kill r =>
    unfold Thread.after
    dsimp only
    split_ifs with h
    · obtain ⟨rfl, hp⟩ := h; exact .kill hp
    · exact .same _
  | finalizeCompleted w =>
    unfold Thread.after
    dsimp only
    split_ifs with h
    · subst h; exact .finalize
    · exact .same _
  | db e =>
    cases e with
    | lock i => exact .same _
    | begin a =>
      unfold Thread.after
      dsimp only
      split_ifs with h
      · exact .begin (of_decide_eq_true h)
      · exact .same _
    | skip i =>
      show Thread.Change s th _ (th.onTxn th.skipped (s.db.txns i))
      rcases th.onTxn_cases th.skipped (s.db.txns i) with h | ⟨x, hx, ho, h⟩ <;> rw [h]
      · exact .same _
      · exact .skip hx ho
    | commit i =>
      show Thread.Change s th _ (th.onTxn th.committed (s.db.txns i))
      rcases th.onTxn_cases th.committed (s.db.txns i) with h | ⟨x, hx, ho, h⟩ <;> rw [h]
      · exact .same _
      · exact .commit hx ho
    | abort i =>
      show Thread.Change s th _ (th.onTxn th.aborted (s.db.txns i))
      rcases th.onTxn_cases th.aborted (s.db.txns i) with h | ⟨x, hx, ho, h⟩ <;> rw [h]
      · exact .same _
      · exact .abort hx ho

theorem Thread.onTxn_owned {f : Tx → Thread} {th : Thread} {x : Txn Tx TaskId Task}
    (ho : x.act.owner = some (th.runner, th.task)) : th.onTxn f (some x) = f x.act :=
  if_pos (show th.owns x.act = true from decide_eq_true ho)

theorem Thread.after_skip {s : Sys} {th : Thread} {i : ℕ} {x : Txn Tx TaskId Task}
    (hx : s.db.txns i = some x) (ho : x.act.owner = some (th.runner, th.task)) :
    th.after s (.db (.skip i)) = th.skipped x.act := by
  show th.onTxn th.skipped (s.db.txns i) = _
  rw [hx, onTxn_owned ho]

theorem Thread.after_commit {s : Sys} {th : Thread} {i : ℕ} {x : Txn Tx TaskId Task}
    (hx : s.db.txns i = some x) (ho : x.act.owner = some (th.runner, th.task)) :
    th.after s (.db (.commit i)) = th.committed x.act := by
  show th.onTxn th.committed (s.db.txns i) = _
  rw [hx, onTxn_owned ho]

theorem Thread.after_abort {s : Sys} {th : Thread} {i : ℕ} {x : Txn Tx TaskId Task}
    (hx : s.db.txns i = some x) (ho : x.act.owner = some (th.runner, th.task)) :
    th.after s (.db (.abort i)) = th.aborted x.act := by
  show th.onTxn th.aborted (s.db.txns i) = _
  rw [hx, onTxn_owned ho]

/-- A thread stays the thread of its runner, task and worker. -/
theorem Thread.after_same (s : Sys) (ev : Ev) (th : Thread) :
    (th.after s ev).runner = th.runner ∧ (th.after s ev).task = th.task ∧
      (th.after s ev).worker = th.worker := by
  have h := Thread.after_change s ev th
  generalize th.after s ev = th' at h
  cases h with
  | same => exact ⟨rfl, rfl, rfl⟩
  | @begin a => cases a <;> exact ⟨rfl, rfl, rfl⟩
  | @skip _ x => cases x.act <;> exact ⟨rfl, rfl, rfl⟩
  | @commit _ x => cases x.act <;> exact ⟨rfl, rfl, rfl⟩
  | @abort _ x => cases x.act <;> exact ⟨rfl, rfl, rfl⟩
  | kill => exact ⟨rfl, rfl, rfl⟩
  | finalize => unfold Thread.finalize; split_ifs <;> exact ⟨rfl, rfl, rfl⟩

/-- What a step may change in where a worker has a thread, and in whether the thread has timed
out. -/
inductive Thread.Marks (s : Sys) (th : Thread) (ev : Ev) (th' : Thread) : Prop
  | same (time : th'.timedOut = th.timedOut) (track : th'.tracked = th.tracked)
  | timedOut (i : ℕ) (x : Txn Tx TaskId Task) (alive : Bool)
      (hev : ev = .db (.commit i) ∨ ev = .db (.abort i)) (hx : s.db.txns i = some x)
      (hact : x.act = .timeoutTask th.runner th.task alive) (time : th'.timedOut = true)
      (track : th'.tracked = th.tracked)
  | recovering (time : th'.timedOut = th.timedOut) (track : th'.tracked = .recovering)
  | removed (i : ℕ) (x : Txn Tx TaskId Task) (now : ℕ) (body : List (TaskId × UserAct))
      (hev : ev = .db (.commit i) ∨ ev = .db (.abort i)) (hx : s.db.txns i = some x)
      (hact : x.act = .resolvedStuckThread th.runner th.task now body)
      (time : th'.timedOut = th.timedOut) (track : th'.tracked = .removed)
  | finalize (hev : ev = .finalizeCompleted th.worker) (active : th.tracked = .active)
      (ended : th.phase = .ended) (time : th'.timedOut = th.timedOut)
      (track : th'.tracked = if th.timedOut then .resolving else .removed)

theorem Thread.after_marks (s : Sys) (ev : Ev) (th : Thread) :
    Thread.Marks s th ev (th.after s ev) := by
  have hch := Thread.after_change s ev th
  generalize th.after s ev = th' at hch
  cases hch with
  | same => exact .same rfl rfl
  | @begin a => cases a <;> first | exact .same rfl rfl | exact .recovering rfl rfl
  | @skip _ x => cases x.act <;> exact .same rfl rfl
  | @commit i x hx ho =>
    cases hact : x.act with
    | timeoutTask r k alive =>
      rw [hact] at ho
      obtain ⟨rfl, rfl⟩ := Prod.mk.inj (Option.some.inj ho)
      exact .timedOut i x alive (.inl rfl) hx hact rfl rfl
    | resolvedStuckThread r k now body =>
      rw [hact] at ho
      obtain ⟨rfl, rfl⟩ := Prod.mk.inj (Option.some.inj ho)
      exact .removed i x now body (.inl rfl) hx hact rfl rfl
    | _ => exact .same rfl rfl
  | @abort i x hx ho =>
    cases hact : x.act with
    | timeoutTask r k alive =>
      rw [hact] at ho
      obtain ⟨rfl, rfl⟩ := Prod.mk.inj (Option.some.inj ho)
      exact .timedOut i x alive (.inr rfl) hx hact rfl rfl
    | resolvedStuckThread r k now body =>
      rw [hact] at ho
      obtain ⟨rfl, rfl⟩ := Prod.mk.inj (Option.some.inj ho)
      exact .removed i x now body (.inr rfl) hx hact rfl rfl
    | _ => exact .same rfl rfl
  | kill => exact .same rfl rfl
  | finalize =>
    unfold Thread.finalize
    split_ifs with hc ht
    · exact .finalize rfl hc.1 hc.2 rfl (if_pos ht).symm
    · exact .finalize rfl hc.1 hc.2 rfl (if_neg ht).symm
    · exact .same rfl rfl

theorem mem_spawns {th : Thread} (hm : th ∈ s.spawns ev) :
    ∃ i x, ev = .db (.commit i) ∧ s.db.txns i = some x ∧ th ∈ spawned x := by
  unfold Sys.spawns at hm
  split at hm
  next i =>
    rcases hx : s.db.txns i with _ | x
    · rw [hx] at hm; exact absurd hm List.not_mem_nil
    · rw [hx] at hm; exact ⟨i, x, rfl, hx, hm⟩
  next => exact absurd hm List.not_mem_nil

/-- A thread of the new state is one of the old state, changed, or has just been spawned. -/
theorem Sys.step_thread (h : s.step reg ev = some s') {th' : Thread} (hm : th' ∈ s'.threads) :
    (∃ th ∈ s.threads, th' = th.after s ev) ∨
      ∃ i x, ev = .db (.commit i) ∧ s.db.txns i = some x ∧ th' ∈ spawned x := by
  rw [Sys.step_threads h] at hm
  rcases List.mem_append.1 hm with hm | hm
  · obtain ⟨i, x, hev, hx, hm⟩ := mem_spawns hm
    exact .inr ⟨i, x, hev, hx, hm⟩
  · obtain ⟨th, hth, rfl⟩ := List.mem_map.1 hm
    exact .inl ⟨th, hth, rfl⟩

theorem Sys.step_keeps_thread (h : s.step reg ev = some s') {th : Thread} (hm : th ∈ s.threads) :
    th.after s ev ∈ s'.threads := by
  rw [Sys.step_threads h]
  exact List.mem_append_right _ (List.mem_map_of_mem hm)

theorem Sys.thread_stays (h : s.step reg ev = some s') {r : RunnerId} {k : TaskId}
    (ht : ∃ th ∈ s.threads, th.runner = r ∧ th.task = k) :
    ∃ th ∈ s'.threads, th.runner = r ∧ th.task = k := by
  obtain ⟨th, hm, rfl, rfl⟩ := ht
  obtain ⟨h1, h2, -⟩ := th.after_same s ev
  exact ⟨_, Sys.step_keeps_thread h hm, h1, h2⟩

theorem mem_spawned {x : Txn Tx TaskId Task} {th : Thread} (h : th ∈ spawned x) :
    ∃ c rank uuid, x.act = .claimTask c rank uuid ∧ th.task ∈ x.locked ∧
      th = { runner := uuid th.task, task := th.task, worker := c.worker } := by
  unfold spawned at h
  split at h
  · next c rank uuid heq =>
    obtain ⟨k, hk, rfl⟩ := List.mem_map.1 h
    exact ⟨c, rank, uuid, heq, hk, rfl⟩
  · exact absurd h List.not_mem_nil

/-! ## The rows of a step -/

def Held (r : RunnerId) (o : Option Task) : Prop :=
  ∃ t, o = some t ∧ t.runnerId = some r ∧ t.state ∈ inFlightStates

instance (r : RunnerId) (o : Option Task) : Decidable (Held r o) :=
  decidable_of_iff (o.any fun t => t.runnerId = some r ∧ t.state ∈ inFlightStates)
    (by unfold Held; rw [Option.any_eq_true]; simp)

theorem Kept.held {k : TaskId} {o o' : Option Task} (h : Kept k o o') {r : RunnerId}
    (hr : Held r o') : Held r o := by
  obtain ⟨t', ht', hr', hf'⟩ := hr
  obtain ⟨t, ht, hf, hr, -, -⟩ := h.flight t' ht' hf'
  exact ⟨t, ht, hr.trans hr', hf⟩

/-- What a claim that commits does to row `k`. -/
def Claimed (s s' : Sys) (ev : Ev) (k : TaskId) (r : RunnerId) : Prop :=
  ∃ i x c rank uuid, ev = .db (.commit i) ∧ s.db.txns i = some x ∧
    x.act = .claimTask c rank uuid ∧ k ∈ x.locked ∧ uuid k = r ∧
      ∃ t, s.db.cur.row k = some t ∧ t.state = .pending ∧
        s'.db.cur.row k = some (t.assigned c.worker r)

/-- A row is kept in a step, or claimed. -/
theorem Sys.row_cases (hw : s.db.Wf (prog reg)) (h : s.step reg ev = some s') (k : TaskId) :
    Kept k (s.db.cur.row k) (s'.db.cur.row k) ∨ ∃ r, Claimed s s' ev k r := by
  rcases Sys.step_db h with ⟨e, rfl, -, hstep⟩ | ⟨-, hdb⟩
  · rcases hstep.row_change hw k with hsame | ⟨i, x, o, rfl, hx, hk, hrow, hwr, ho⟩
    · rw [hsame]; exact .inl (.refl _ _)
    · rw [ho, ← hrow]
      by_cases hc : ∃ c rank uuid, x.act = .claimTask c rank uuid
      · obtain ⟨c, rank, uuid, hact⟩ := hc
        rw [hact] at hwr
        obtain ⟨t, ht, hp, rfl⟩ := write_claim hwr
        exact .inr ⟨uuid k, i, x, c, rank, uuid, rfl, hx, hact, hk, rfl, t, hrow ▸ ht, hp, ho⟩
      · exact .inl (write_kept (fun c rank uuid heq => hc ⟨c, rank, uuid, heq⟩) hwr)
  · rw [hdb]; exact .inl (.refl _ _)

/-- A row in flight under `r` was so before, or has just been claimed for `r`. -/
theorem Sys.held_cases (hw : s.db.Wf (prog reg)) (h : s.step reg ev = some s') {k : TaskId}
    {r : RunnerId} (hr : Held r (s'.db.cur.row k)) :
    Held r (s.db.cur.row k) ∨ Claimed s s' ev k r := by
  rcases Sys.row_cases hw h k with hk | ⟨r', hc⟩
  · exact .inl (hk.held hr)
  · obtain ⟨_, _, _, _, _, _, _, _, _, _, t, _, _, hrow⟩ := id hc
    obtain ⟨t', ht', hr', -⟩ := hr
    rw [hrow] at ht'
    obtain rfl := Option.some.inj ht'
    obtain rfl : r' = r := Option.some.inj hr'
    exact .inr hc

/-- A claim takes a runner that no thread has, and gives it to the thread of its row. -/
theorem Claimed.thread (h : s.step reg ev = some s') {k : TaskId} {r : RunnerId}
    (hc : Claimed s s' ev k r) : (∀ th ∈ s.threads, th.runner ≠ r) ∧
      ∃ th ∈ s'.threads, th.runner = r ∧ th.task = k := by
  obtain ⟨i, x, c, rank, uuid, rfl, hx, hact, hk, rfl, -⟩ := hc
  have hmem : { runner := uuid k, task := k, worker := c.worker : Thread } ∈ spawned x := by
    unfold spawned
    rw [hact]
    exact List.mem_map_of_mem hk
  have hsp : s.spawns (.db (.commit i)) = spawned x := by
    show (s.db.txns i).elim [] spawned = spawned x
    rw [hx]
    rfl
  refine ⟨fun th hth heq => ?_, { runner := uuid k, task := k, worker := c.worker }, ?_, rfl, rfl⟩
  · have ha := (Sys.step_of_db h).1
    simp only [Sys.allows, hx, Option.all_some, decide_eq_true_eq] at ha
    exact ha.2 _ (List.mem_map_of_mem hmem) (List.mem_map.2 ⟨th, hth, heq⟩)
  · rw [Sys.step_threads h, hsp]
    exact List.mem_append_left _ hmem

/-! ## The invariant -/

/-- What holds in every reachable state. -/
structure Inv (reg : Registry) (s : Sys) : Prop where
  wf : s.db.Wf (prog reg)
  ids : ∀ k, IdAt k (s.db.cur.row k)
  snapIds : ∀ i x, s.db.txns i = some x → ∀ k, IdAt k (x.snap.row k)
  runners : (s.threads.map Thread.runner).Nodup
  held : ∀ k r, Held r (s.db.cur.row k) → ∃ th ∈ s.threads, th.runner = r ∧ th.task = k
  owned : ∀ i x r k, s.db.txns i = some x → x.act.owner = some (r, k) →
    ∃ th ∈ s.threads, th.runner = r ∧ th.task = k
  snap : ∀ i x r k k', s.db.txns i = some x → x.act.owner = some (r, k) →
    Held r (s.db.cur.row k') → Held r (x.snap.row k')

theorem Start.closed (h : Start s) {i : ℕ} {x : Txn Tx TaskId Task} : s.db.txns i ≠ some x := by
  rw [h.no_txn]
  exact nofun

theorem Start.inv (h : Start s) : Inv reg s where
  wf := ⟨h.ok, fun _ _ hx => absurd hx h.closed, fun _ _ hx => absurd hx h.closed,
    fun _ _ _ _ _ hx => absurd hx h.closed⟩
  ids := h.ids
  snapIds _ _ hx := absurd hx h.closed
  runners := by rw [h.no_thread]; exact List.nodup_nil
  held := fun k _ ⟨t, ht, _, hf⟩ => absurd hf (h.idle k t ht)
  owned _ _ _ _ hx := absurd hx h.closed
  snap _ _ _ _ _ hx := absurd hx h.closed

theorem Inv.same_thread (hi : Inv reg s) {th th' : Thread} (hm : th ∈ s.threads)
    (hm' : th' ∈ s.threads) (h : th.runner = th'.runner) : th = th' :=
  List.inj_on_of_nodup_map hi.runners hm hm' h

theorem Inv.held_unique (hi : Inv reg s) {r : RunnerId} {k k' : TaskId}
    (h : Held r (s.db.cur.row k)) (h' : Held r (s.db.cur.row k')) : k = k' := by
  obtain ⟨th, hm, hr, rfl⟩ := hi.held k r h
  obtain ⟨th', hm', hr', rfl⟩ := hi.held k' r h'
  rw [hi.same_thread hm hm' (hr.trans hr'.symm)]

theorem Inv.closed (hi : Inv reg s) (h : ∀ i < s.db.nextId, (s.db.txns i).isNone = true) (i : ℕ) :
    s.db.txns i = none := by
  rcases hx : s.db.txns i with _ | x
  · rfl
  · have := h i (hi.wf.bound i x hx)
    rw [hx] at this
    cases this

theorem Sys.step_wf (hw : s.db.Wf (prog reg)) (h : s.step reg ev = some s') :
    s'.db.Wf (prog reg) := by
  rcases Sys.step_db h with ⟨e, -, -, hs⟩ | ⟨-, hdb⟩
  · exact hs.wf hw
  · rw [hdb]; exact hw

theorem Sys.ver_le (h : s.step reg ev = some s') (k : TaskId) :
    s.db.cur.ver k ≤ s'.db.cur.ver k := by
  rcases Sys.step_db h with ⟨e, -, -, hs⟩ | ⟨-, hdb⟩
  · exact hs.ver_le k
  · rw [hdb]

theorem Sys.row_of_ver (h : s.step reg ev = some s') {k : TaskId}
    (hv : s'.db.cur.ver k = s.db.cur.ver k) : s'.db.cur.row k = s.db.cur.row k := by
  rcases Sys.step_db h with ⟨e, -, -, hs⟩ | ⟨-, hdb⟩
  · exact hs.row_of_ver hv
  · rw [hdb]

theorem Sys.keys_subset (h : s.step reg ev = some s') : s.db.cur.keys ⊆ s'.db.cur.keys := by
  rcases Sys.step_db h with ⟨e, rfl, -, hs⟩ | ⟨-, hdb⟩
  · exact hs.keys_subset
  · rw [hdb]
    exact List.Subset.refl _

theorem Sys.nextId_le (h : s.step reg ev = some s') : s.db.nextId ≤ s'.db.nextId := by
  rcases Sys.step_db h with ⟨e, rfl, -, hs⟩ | ⟨-, hdb⟩
  · exact hs.nextId_le
  · rw [hdb]

theorem Sys.step_commit {i : ℕ} (h : s.step reg (.db (.commit i)) = some s') :
    ∃ x, s.db.txns i = some x ∧ x.asks (prog reg) = none ∧
      Step (prog reg) s.db (.commit i) s'.db := by
  have hs := (Sys.step_of_db h).2
  obtain ⟨x, hx, hk, -⟩ := hs.commit_inv
  exact ⟨x, hx, hk, hs⟩

/-- An open transaction was open before the step, or begins in it. -/
theorem Sys.step_txn (h : s.step reg ev = some s') {i : ℕ} {x' : Txn Tx TaskId Task}
    (hx' : s'.db.txns i = some x') :
    (∃ x, s.db.txns i = some x ∧ x'.act = x.act ∧ x'.snap = x.snap) ∨
      (ev = .db (.begin x'.act) ∧ x'.snap = s.db.cur ∧ s'.db.cur = s.db.cur ∧
        s.allows (.begin x'.act) = true ∧ i = s.db.nextId) := by
  rcases Sys.step_db h with ⟨e, rfl, ha, hs⟩ | ⟨-, hdb⟩
  · rcases hs.txn_old hx' with ⟨x, hx, hact, hsnap, -⟩ | ⟨a, rfl, hi, rfl⟩
    · exact .inl ⟨x, hx, hact, hsnap⟩
    · exact .inr ⟨rfl, rfl, hs.cur_eq nofun, ha, hi⟩
  · rw [hdb] at hx'
    exact .inl ⟨x', hx', rfl, rfl⟩

/-- A transaction that neither commits nor aborts stays open; once it asks for nothing more, as it
is. -/
theorem Sys.txn_stays (hw : s.db.Wf (prog reg)) (h : s.step reg ev = some s') {i : ℕ}
    {x : Txn Tx TaskId Task} (hx : s.db.txns i = some x) (hc : ev ≠ .db (.commit i))
    (ha : ev ≠ .db (.abort i)) :
    ∃ x', s'.db.txns i = some x' ∧ x'.act = x.act ∧ x'.snap = x.snap ∧ x.locked ⊆ x'.locked ∧
      x.skipped ⊆ x'.skipped ∧ (x.asks (prog reg) = none → x' = x) := by
  rcases Sys.step_db h with ⟨e, rfl, -, hs⟩ | ⟨-, hdb⟩
  · exact hs.txn_stays hx (hw.bound i x hx) (fun he => hc (he ▸ rfl)) (fun he => ha (he ▸ rfl))
  · rw [hdb]
    exact ⟨x, hx, rfl, rfl, List.Subset.refl _, List.Subset.refl _, fun _ => rfl⟩

theorem Sys.cur_eq (h : s.step reg ev = some s') (hc : ∀ i, ev ≠ .db (.commit i)) :
    s'.db.cur = s.db.cur := by
  rcases Sys.step_db h with ⟨e, rfl, -, hs⟩ | ⟨-, hdb⟩
  · exact hs.cur_eq fun i he => hc i (he ▸ rfl)
  · rw [hdb]

theorem Sys.closed_txn (h : s.step reg ev = some s') {i : ℕ}
    (he : ev = .db (.commit i) ∨ ev = .db (.abort i)) : s'.db.txns i = none := by
  rcases Sys.step_db h with ⟨e, rfl, -, hs⟩ | ⟨hne, -⟩
  · exact hs.closed (he.imp Ev.db.inj Ev.db.inj)
  · rcases he with rfl | rfl <;> exact absurd rfl (hne _)

theorem Sys.step_locked (h : s.step reg ev = some s') {i : ℕ} {x' : Txn Tx TaskId Task}
    (hx' : s'.db.txns i = some x') {k : TaskId} (hk : k ∈ x'.locked) :
    ∃ x, s.db.txns i = some x ∧ x'.act = x.act ∧ x'.snap = x.snap ∧ (k ∈ x.locked ∨
      ev = .db (.lock i) ∧ ∃ m, x.asks (prog reg) = some (m, k)) := by
  rcases Sys.step_db h with ⟨e, rfl, ha, hs⟩ | ⟨-, hdb⟩
  · rcases hs.txn_old hx' with ⟨x, hx, hact, hsnap, hcase⟩ | ⟨a, rfl, -, rfl⟩
    · refine ⟨x, hx, hact, hsnap, ?_⟩
      rcases hcase with ⟨heq, -⟩ | ⟨rfl, m, k', hask, heq, -⟩ | ⟨-, k', -, -, heq, -⟩
      · exact .inl (heq ▸ hk)
      · rw [heq] at hk
        rcases List.mem_cons.1 hk with rfl | hk
        · exact .inr ⟨rfl, m, hask⟩
        · exact .inl hk
      · exact .inl (heq ▸ hk)
    · exact absurd hk List.not_mem_nil
  · rw [hdb] at hx'
    exact ⟨x', hx', rfl, rfl, .inl hk⟩

theorem Sys.step_skipped (h : s.step reg ev = some s') {i : ℕ} {x' : Txn Tx TaskId Task}
    (hx' : s'.db.txns i = some x') {k : TaskId} (hk : k ∈ x'.skipped) :
    ∃ x, s.db.txns i = some x ∧ x'.act = x.act ∧ x'.snap = x.snap ∧ (k ∈ x.skipped ∨
      ev = .db (.skip i) ∧ x.asks (prog reg) = some (.skipLocked, k) ∧ ¬ s.db.Free i k) := by
  rcases Sys.step_db h with ⟨e, rfl, ha, hs⟩ | ⟨-, hdb⟩
  · rcases hs.txn_old hx' with ⟨x, hx, hact, hsnap, hcase⟩ | ⟨a, rfl, -, rfl⟩
    · refine ⟨x, hx, hact, hsnap, ?_⟩
      rcases hcase with ⟨-, heq⟩ | ⟨-, m, k', -, -, heq⟩ | ⟨rfl, k', hask, hfree, -, heq⟩
      · exact .inl (heq ▸ hk)
      · exact .inl (heq ▸ hk)
      · rw [heq] at hk
        rcases List.mem_cons.1 hk with rfl | hk
        · exact .inr ⟨rfl, hask, hfree⟩
        · exact .inl hk
    · exact absurd hk List.not_mem_nil
  · rw [hdb] at hx'
    exact ⟨x', hx', rfl, rfl, .inl hk⟩

theorem allows_owner {a : Tx} {r : RunnerId} {k : TaskId} (ha : s.allows (.begin a) = true)
    (ho : a.owner = some (r, k)) :
    ∃ th ∈ s.threads, th.runner = r ∧ th.task = k ∧ th.ready a = true := by
  simp only [Sys.allows, ho, Option.isNone_some, Bool.false_or, List.any_eq_true,
    Bool.and_eq_true] at ha
  obtain ⟨⟨th, hm, hown, hr⟩, -⟩ := ha
  obtain ⟨rfl, rfl⟩ := Prod.mk.inj (Option.some.inj (ho.symm.trans (of_decide_eq_true hown)))
  exact ⟨th, hm, rfl, rfl, hr⟩

theorem Inv.step_runners (hi : Inv reg s) (h : s.step reg ev = some s') :
    (s'.threads.map Thread.runner).Nodup := by
  rw [Sys.step_threads h, List.map_append, List.map_map]
  have hsame : s.threads.map (Thread.runner ∘ Thread.after s ev) = s.threads.map Thread.runner :=
    List.map_congr_left fun th _ => (th.after_same s ev).1
  rw [hsame]
  by_cases hsp : s.spawns ev = []
  · rw [hsp]; exact hi.runners
  · -- only a claim spawns, and it takes new runners
    obtain ⟨th, hth⟩ := List.exists_mem_of_ne_nil _ hsp
    obtain ⟨i, x, rfl, hx, -⟩ := mem_spawns hth
    have hspx : s.spawns (.db (.commit i)) = spawned x := by
      show (s.db.txns i).elim [] spawned = spawned x
      rw [hx]
      rfl
    rw [hspx, List.nodup_append]
    have ha := (Sys.step_of_db h).1
    simp only [Sys.allows, hx, Option.all_some, decide_eq_true_eq] at ha
    exact ⟨ha.1, hi.runners, fun r hr r' hr' heq => ha.2 r hr (heq ▸ hr')⟩

/-- Once `r` has a thread, no row comes under it any more. -/
theorem Inv.held_back (hi : Inv reg s) (h : s.step reg ev = some s') {th : Thread}
    (hm : th ∈ s.threads) (hr : th.runner = r) {k : TaskId} (hh : Held r (s'.db.cur.row k)) :
    Held r (s.db.cur.row k) := by
  rcases Sys.held_cases hi.wf h hh with hh | hc
  · exact hh
  · exact absurd hr ((hc.thread h).1 th hm)

/-- **Invariant.** Every step keeps it. -/
theorem Inv.step (hi : Inv reg s) (h : s.step reg ev = some s') : Inv reg s' where
  wf := Sys.step_wf hi.wf h
  ids k := by
    rcases Sys.row_cases hi.wf h k with hk | ⟨r, i, x, c, rank, uuid, -, -, -, -, -, t, ht, -, ht'⟩
    · exact hk.id (hi.ids k)
    · intro u hu
      rw [ht'] at hu
      obtain rfl := Option.some.inj hu
      exact hi.ids k t ht
  snapIds i x hx k := by
    rcases Sys.step_txn h hx with ⟨y, hy, -, hsnap⟩ | ⟨-, hsnap, -⟩
    · rw [hsnap]; exact hi.snapIds i y hy k
    · rw [hsnap]; exact hi.ids k
  runners := hi.step_runners h
  held k r hr := by
    rcases Sys.held_cases hi.wf h hr with hr | hc
    · exact Sys.thread_stays h (hi.held k r hr)
    · exact (hc.thread h).2
  owned i x r k hx ho := by
    rcases Sys.step_txn h hx with ⟨y, hy, hact, -⟩ | ⟨-, -, -, ha, -⟩
    · exact Sys.thread_stays h (hi.owned i y r k hy (hact ▸ ho))
    · obtain ⟨th, hm, hr, hk, -⟩ := allows_owner ha ho
      exact Sys.thread_stays h ⟨th, hm, hr, hk⟩
  snap i x r k k' hx ho hr := by
    rcases Sys.step_txn h hx with ⟨y, hy, hact, hsnap⟩ | ⟨-, hsnap, hcur, -⟩
    · rw [hsnap]
      rcases Sys.held_cases hi.wf h hr with hr | hc
      · exact hi.snap i y r k k' hy (hact ▸ ho) hr
      · -- the runner of an open transaction has a thread, so no claim takes it
        obtain ⟨th, hm, hth, -⟩ := hi.owned i y r k hy (hact ▸ ho)
        exact absurd hth ((hc.thread h).1 th hm)
    · rw [hsnap, ← hcur]; exact hr

theorem Inv.path {es : List Ev} {ok : Sys → Ev → Prop} (hi : Inv reg s)
    (hp : Path (Sys.step reg) ok s es s') : Inv reg s' :=
  hp.inv (fun _ _ _ hi _ h => hi.step h) hi

theorem start_locked (hi : Inv reg s) {i : ℕ} {x : Txn Tx TaskId Task} {now : ℕ} {r : RunnerId}
    {k : TaskId} (hx : s.db.txns i = some x) (ha : x.act = .actionStart r k now)
    (hn : x.asks (prog reg) = none) : k ∈ x.locked := by
  have hm : (k, RowAct.start now) ∈ x.act.stmts reg x.snap x.locked := by
    rw [ha]
    exact List.mem_singleton.2 rfl
  rcases next_none hn (by rw [ha]; rfl) hm with hL | hS | hsel
  · exact hL
  · -- it waits for the row, and never leaves it out
    obtain ⟨L, S, hask⟩ := (hi.wf.txn i x hx).left k hS
    obtain ⟨act, hmem, hmode, -⟩ := next_some hask
    rw [ha] at hmem
    obtain ⟨-, rfl⟩ := Prod.mk.inj (List.mem_singleton.1 hmem)
    cases hmode
  · cases h : x.snap.row k <;> rw [h] at hsel <;> cases hsel

end GenericTaskQueue
