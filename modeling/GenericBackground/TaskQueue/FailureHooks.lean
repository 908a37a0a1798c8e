import GenericBackground.Lib.Path
import GenericBackground.TaskQueue.ParentDecision
import GenericBackground.TaskQueue.Recovery
import GenericBackground.TaskQueue.Transactions

/-!
# Every path to `failed`

The transactions in which a task fails: the failure handler of a task thread, the recovery of lost
executions (on startup, by a sweep, of a thread that timed out and ended), and the check of a
waiting parent. Each is a run over the database with arbitrary hooks, and records the hooks it
calls. All other transactions are statements on rows, none of which fails a task.

A run of the queue is a sequence of commits. A transaction works on its snapshot, which may be
stale; it commits if every row that it has written is still as in the snapshot, and is rolled back
otherwise. What an `on_failure` writes with `update_progress` goes through a cursor of its own: it
is committed at once, to rows that the transaction has not locked by then, and a row that the
transaction locks only afterwards is stale.

Along every run, a task gets to `failed` only by a transaction that has called its `on_failure`
once. An `on_failure` that raises leaves nothing but progress behind, and its task fails all the
same, unless it has made a row stale that its transaction writes (`failed_after_on_failure`).
-/

namespace GenericTaskQueue

open Traced Lts

namespace Database

variable {σ : Type}

/-! ## The transactions that run `on_failure` -/

def handleLostExecution (D : Database σ) (E : Env) (hooks : TypeCode → TypeHooks σ)
    (error : String) (runner : Option RunnerId) (worker : Option WorkerId) (id : TaskId) :
    TxRun σ :=
  match D.tasks.get id with
  | none => .ok D
  | some t =>
    if finalizable inFlightStates runner worker t then
      if t.state = .assigned ∨ retriableLoss t then
        D.modify [] id (GenericTaskQueue.handleLostExecution E.reg E.now error)
      else
        let t' := { t with runnerId := none }
        { D with tasks := D.tasks.update id fun _ => t' }.failTask E hooks
          (.taskAbandonedError error) error t'
    else .ok D

/-- One task of `_recover_lost_executions`, in its savepoint. -/
def recoverOne (E : Env) (hooks : TypeCode → TypeHooks σ) (error : String) (id : TaskId)
    (D : Database σ) : TxRun σ :=
  (D.handleLostExecution E hooks error ((D.tasks.get id).bind Task.runnerId)
    ((D.tasks.get id).bind Task.workerId) id).savepoint (· ≠ .transientError) D

/-- `_recover_lost_executions`. The cleanup on startup first un-owns the `waiting` tasks. -/
def recoverLostExecutions (D : Database σ) (E : Env) (hooks : TypeCode → TypeHooks σ)
    (waiting ids : List TaskId) (error : String) : TxRun σ :=
  each (recoverOne E hooks error) ids
    { D with tasks := D.tasks.updateAll waiting fun t => { t with workerId := none } }

/-- `_handle_resolved_stuck_threads`, for one thread. -/
def resolvedStuckThread (D : Database σ) (E : Env) (hooks : TypeCode → TypeHooks σ)
    (runner : RunnerId) (id : TaskId) : TxRun σ :=
  match D.tasks.get id with
  | none => ⟨[], .error (.other "Record does not exist or has been deleted.")⟩
  | some t =>
    if t.state ≠ .stuck then .ok D
    else if t.runnerId ≠ some runner then .ok D
    else D.handleLostExecution E hooks resolvedStuckError (some runner) none id

/-- The failure handler of `_task_thread_target`. That the thread still owns the task is checked
after `on_failure` has run. -/
def failureHandler (D : Database σ) (E : Env) (hooks : TypeCode → TypeHooks σ) (runner : RunnerId)
    (id : TaskId) (exc : Exc) (traceback : String) : TxRun σ :=
  match D.tasks.get id with
  | none => ⟨[], .error (.other "Record does not exist or has been deleted.")⟩
  | some t =>
    if retriesFailure exc t then
      if finalizable finalStates (some runner) none t then
        D.modify [] id (handleFailure E.reg E.now exc traceback t)
      else .ok D
    else (D.onFailure E hooks (.raised exc) t).andThen fun D' =>
      if (D'.tasks.get id).any (finalizable finalStates (some runner) none) then
        D'.actionFail E traceback id
      else .ok D'

end Database

abbrev Recordset := { ids : List TaskId // ids.Nodup }

/-- The transactions that may fail a task. -/
inductive HookTx where
  | failureHandler (runner : RunnerId) (id : TaskId) (exc : Exc) (traceback : String)
  | recoverLostExecutions (waiting : List TaskId) (ids : Recordset) (error : String)
  | resolvedStuckThread (runner : RunnerId) (id : TaskId)
  | checkWaitingParent (id : TaskId)

def HookTx.run {σ : Type} (a : HookTx) (E : Env) (hooks : TypeCode → TypeHooks σ)
    (D : Database σ) : TxRun σ :=
  match a with
  | .failureHandler runner id exc traceback => D.failureHandler E hooks runner id exc traceback
  | .recoverLostExecutions waiting ids error => D.recoverLostExecutions E hooks waiting ids.1 error
  | .resolvedStuckThread runner id => D.resolvedStuckThread E hooks runner id
  | .checkWaitingParent id => D.checkWaitingParent E hooks id

/-! ## The other transactions -/

/-- A statement after which a task may be failed that was not. -/
def RowAct.fails : RowAct → Bool
  | .failure _ _ _ _ _ => true
  | .lostExecution _ _ _ _ => true
  | .move _ (.fail _) => true
  | _ => false

/-- The statements of any other transaction. -/
structure Statements where
  stmts : List (TaskId × RowAct)
  plain : ∀ p ∈ stmts, p.2.fails = false

abbrev WriteSet := List (TaskId × Option Task)

abbrev Rows := TaskId → Option Task

def writeSet (T T' : Table) : WriteSet :=
  (((T.rows ++ T'.rows).map Task.id).filter fun k => T.get k ≠ T'.get k).map fun k => (k, T'.get k)

def Statements.acts (p : Statements) (k : TaskId) : List RowAct :=
  (p.stmts.filter fun q => q.1 = k).map Prod.snd

/-- What the statements on row `k` leave. -/
def Statements.row (p : Statements) (reg : Registry) (T : Table) (k : TaskId) :
    Except TaskError (Option Task) :=
  (runActs reg (p.acts k) (false, T.get k)).map Prod.snd

def Statements.writes (p : Statements) (reg : Registry) (T : Table) : Except TaskError WriteSet :=
  p.stmts.mapM fun q => (p.row reg T q.1).map fun o => (q.1, o)

/-! ## Commits -/

inductive QueueTx where
  | hooked (a : HookTx)
  | statements (p : Statements)

abbrev Tick := TaskId × ℤ

/-- A transaction that ends: the snapshot it works on, and what its hooks do. In `ticks` is what
`on_failure` writes on the cursor of `update_progress` when it is called on a task: on the rows of
the call and of the parents that it passes the progress on to, less those it skips because another
transaction has locked them. -/
structure Commit (σ : Type) where
  tx : QueueTx
  snapshot : Database σ
  env : Env
  hooks : TypeCode → TypeHooks σ
  ticks : TaskId → List Tick := fun _ => []

/-- The rows that the transaction has locked when it calls `on_failure` on the task. -/
def HookTx.holds (a : HookTx) (k : TaskId) : List TaskId :=
  match a with
  | .failureHandler _ _ _ _ => []
  | .recoverLostExecutions waiting ids _ => waiting ++ ids.1.takeWhile (· ≠ k) ++ [k]
  | .resolvedStuckThread _ id => [id]
  | .checkWaitingParent id => [id]

variable {σ : Type}

def Commit.events (c : Commit σ) : List TxEvent :=
  match c.tx with
  | .hooked a => (a.run c.env c.hooks c.snapshot).events
  | .statements _ => []

/-- The rows that are ticked in an event. -/
def Commit.ticksOf (c : Commit σ) : TxEvent → List Tick
  | .onFailure id _ _ => match c.tx with
    | .hooked a => (c.ticks id).filter fun p => p.1 ∉ a.holds id
    | .statements _ => []
  | _ => []

def Commit.ticked (c : Commit σ) : List Tick := c.events.flatMap c.ticksOf

/-- The rows that it writes, unless it is rolled back. -/
def Commit.writes (c : Commit σ) : Option WriteSet :=
  match c.tx with
  | .hooked a => match (a.run c.env c.hooks c.snapshot).result with
    | .ok D => some (writeSet c.snapshot.tasks D.tasks)
    | .error _ => none
  | .statements p => match p.writes c.env.reg c.snapshot.tasks with
    | .ok W => some W
    | .error _ => none

def Commit.current (c : Commit σ) (cur : Rows) (W : WriteSet) : Bool :=
  W.all fun p => cur p.1 = c.snapshot.tasks.get p.1

/-- The rows once they have been ticked, each with its last progress. -/
def Rows.tick (cur : Rows) (l : List Tick) : Rows := fun k =>
  (cur k).map fun t => { t with progress := (l.reverse.lookup k).getD t.progress }

/-- The rows after the end of a transaction: written, or rolled back. The progress stays. -/
def commit (cur : Rows) (c : Commit σ) : Option Rows :=
  let now := cur.tick c.ticked
  match c.writes with
  | none => some now
  | some W => some (if c.current now W then fun k => (W.lookup k).getD (now k) else now)

/-! ## What is asked of hooks -/

def Failed (o : Option Task) : Prop := o.map Task.state = some .failed

instance (o : Option Task) : Decidable (Failed o) := by unfold Failed; infer_instance

def AllRegistered (E : Env) (D : Database σ) : Prop :=
  ∀ k t, D.tasks.get k = some t → E.registered t.typeCode = true

/-- No hook fails a task, `on_failure` leaves the state of its own task alone, and a hook that
changes the table leaves tasks of registered types. -/
structure TypeHooks.Tame (E : Env) (h : TypeHooks σ) : Prop where
  keepsState : h.KeepsState
  done_fails : ∀ t D D' v, h.onAllChildrenDone t D = .ok (D', v) →
    ∀ k, Failed (D'.tasks.get k) → Failed (D.tasks.get k)
  failure_fails : ∀ cause t D D', h.onFailure cause t D = .returned D' →
    ∀ k, Failed (D'.tasks.get k) → Failed (D.tasks.get k)
  failure_registered : ∀ cause t D D', h.onFailure cause t D = .returned D' →
    AllRegistered E D → AllRegistered E D'

/-- What a trace says about how task `k` came to fail. -/
def TxEvent.about (k : TaskId) : TxEvent → Bool
  | .onFailure id _ _ => id = k
  | .failed id _ => id = k
  | _ => false

/-- `on_failure` was called on the task, once, with such a cause, and then the task was failed. -/
def FailedBy (k : TaskId) (cause : FailureCause → Prop) (es : List TxEvent) : Prop :=
  ∃ c ended error, cause c ∧ es = [.onFailure k c ended, .failed k error]

theorem FailedBy.mono {k : TaskId} {c c' : FailureCause → Prop} {es : List TxEvent}
    (h : FailedBy k c es) (hc : ∀ x, c x → c' x) : FailedBy k c' es := by
  obtain ⟨x, ended, error, hx, rfl⟩ := h
  exact ⟨x, ended, error, hc x hx, rfl⟩

theorem FailedBy.filter {k : TaskId} {c : FailureCause → Prop} {es : List TxEvent}
    (h : FailedBy k c es) : es.filter (TxEvent.about k) = es := by
  obtain ⟨c, ended, error, -, rfl⟩ := h
  simp [TxEvent.about]

namespace Database

variable {D D' : Database σ} {E : Env} {hooks : TypeCode → TypeHooks σ} {id k : TaskId} {t : Task}
  {cause : FailureCause} {error : String}

/-! ## What each piece accounts for -/

theorem failed_update {T : Table} {t' : Task} (ht : T.get id = some t)
    (h : id = k → t'.state = .failed → t.state = .failed)
    (hf : Failed ((T.update id fun _ => t').get k)) : Failed (T.get k) := by
  unfold Failed at hf ⊢
  by_cases hk : id = k
  · subst hk
    rw [Table.get_update_self ht, Option.map_some, Option.some.injEq] at hf
    rw [ht, Option.map_some, h rfl hf]
  · rwa [Table.get_update_of_ne (Ne.symm hk)] at hf

theorem modify_silent {es : List TxEvent} {f : Task → Except TaskError Task}
    (hes : es.filter (TxEvent.about k) = [])
    (hf : id = k → ∀ t t', D.tasks.get id = some t → f t = .ok t' → t'.state = .failed →
      t.state = .failed) :
    Silent (TxEvent.about k) (fun D => Failed (D.tasks.get k)) D (D.modify es id f) := by
  refine ⟨?_, fun D' hD hF => ?_⟩
  · unfold modify
    split
    · rfl
    · split
      · exact hes
      · rfl
  · obtain ⟨t, t', ht, hft, rfl, -⟩ := modify_ok hD
    exact failed_update ht (fun hk => hf hk t t' ht hft) hF

theorem actionFail_silent (hne : id ≠ k) :
    Silent (TxEvent.about k) (fun D => Failed (D.tasks.get k)) D (D.actionFail E error id) :=
  modify_silent (by simp [TxEvent.about, hne]) fun h => absurd h hne

theorem actionFail_events (h : (D.actionFail E error id).result = .ok D') :
    (D.actionFail E error id).events = [.failed id error] := by
  obtain ⟨-, -, -, -, -, hes⟩ := modify_ok h
  exact hes

theorem onFailure_ok (h : (D.onFailure E hooks cause t).result = .ok D') :
    D' = D ∨ (hooks t.typeCode).onFailure cause t D = .returned D' := by
  unfold onFailure at h
  split_ifs at h
  · rcases hr : (hooks t.typeCode).onFailure cause t D with D₁ | exc | _
    · simp only [hr] at h
      exact .inr (congrArg _ (Except.ok.inj h))
    · simp only [hr] at h
      exact .inl (Except.ok.inj h).symm
    · simp only [hr] at h
      cases h
  · exact .inl (Except.ok.inj h).symm

theorem onFailure_fails (hT : (hooks t.typeCode).Tame E)
    (h : (D.onFailure E hooks cause t).result = .ok D') (hf : Failed (D'.tasks.get k)) :
    Failed (D.tasks.get k) := by
  rcases onFailure_ok h with rfl | hr
  · exact hf
  · exact hT.failure_fails _ _ _ _ hr k hf

theorem onFailure_events (hreg : E.registered t.typeCode = true) :
    ∃ ended, (D.onFailure E hooks cause t).events = [.onFailure t.id cause ended] := by
  unfold onFailure
  rw [if_pos hreg]
  rcases (hooks t.typeCode).onFailure cause t D with D' | exc | _
  · exact ⟨_, rfl⟩
  · exact ⟨_, rfl⟩
  · exact ⟨_, rfl⟩

theorem onFailure_silent (hT : (hooks t.typeCode).Tame E) (hne : t.id ≠ k) :
    Silent (TxEvent.about k) (fun D => Failed (D.tasks.get k)) D
      (D.onFailure E hooks cause t) := by
  refine ⟨?_, fun D' hD hF => onFailure_fails hT hD hF⟩
  by_cases hreg : E.registered t.typeCode = true
  · obtain ⟨ended, hes⟩ := onFailure_events hreg
    rw [hes]
    simp [TxEvent.about, hne]
  · unfold onFailure
    rw [if_neg hreg]
    rfl

theorem failTask_silent (hT : (hooks t.typeCode).Tame E) (hne : t.id ≠ k) :
    Silent (TxEvent.about k) (fun D => Failed (D.tasks.get k)) D
      (D.failTask E hooks cause error t) :=
  (onFailure_silent hT hne).andThen fun _ _ => actionFail_silent hne

theorem failTask_events (hreg : E.registered t.typeCode = true)
    (h : (D.failTask E hooks cause error t).result = .ok D') :
    FailedBy t.id (· = cause) (D.failTask E hooks cause error t).events := by
  unfold failTask at h ⊢
  obtain ⟨D₁, h1, h2⟩ := Run.andThen_ok h
  obtain ⟨ended, hes⟩ := onFailure_events hreg
  rw [Run.andThen_of_ok h1, Run.after_events, hes, actionFail_events h2]
  exact ⟨cause, ended, error, rfl, rfl⟩

/-! ## Lost executions -/

variable {runner : Option RunnerId} {worker : Option WorkerId}

theorem retriable_not_failed {reg : Registry} {now : ℕ} {t' : Task}
    (hr : t.state = .assigned ∨ retriableLoss t = true)
    (h : GenericTaskQueue.handleLostExecution reg now error t = .ok t') : t'.state ≠ .failed := by
  rw [retriableLoss_iff] at hr
  rcases handleLostExecution_cases h with ⟨-, h⟩ | ⟨-, -, rfl⟩ | ⟨ha, hn, -⟩
  · obtain ⟨-, rfl⟩ := checked_ok h
    nofun
  · nofun
  · exact absurd hr (not_or.2 ⟨ha, hn⟩)

theorem handleLostExecution_silent (hT : ∀ code, (hooks code).Tame E) (hne : id ≠ k) :
    Silent (TxEvent.about k) (fun D => Failed (D.tasks.get k)) D
      (D.handleLostExecution E hooks error runner worker id) := by
  unfold handleLostExecution
  rcases ht : D.tasks.get id with _ | t
  · exact .ok D
  simp only
  split_ifs with hf hr
  · exact modify_silent rfl fun h => absurd h hne
  · obtain ⟨-, rfl⟩ := Table.get_eq_some_iff.1 ht
    have hs : Silent (TxEvent.about k) (fun D => Failed (D.tasks.get k))
        { D with tasks := D.tasks.update t.id fun _ => { t with runnerId := none } }
        ({ D with tasks := D.tasks.update t.id fun _ => { t with runnerId := none } }.failTask E
          hooks (.taskAbandonedError error) error { t with runnerId := none }) :=
      failTask_silent (hT t.typeCode) hne
    refine ⟨hs.events, fun D' hD hF => ?_⟩
    have := hs.result D' hD hF
    exact failed_update ht (fun h => absurd h hne) this
  · exact .ok D

theorem handleLostExecution_accounted (hreg : AllRegistered E D) :
    Accounted (TxEvent.about id) (fun D => Failed (D.tasks.get id))
      (FailedBy id (· = .taskAbandonedError error)) D
      (D.handleLostExecution E hooks error runner worker id) := by
  unfold handleLostExecution
  rcases ht : D.tasks.get id with _ | t
  · exact (Silent.ok D).accounted
  simp only
  split_ifs with hf hr
  · refine (modify_silent rfl fun _ u u' hu hf' hs => ?_).accounted
    obtain rfl := Option.some.inj (hu.symm.trans ht)
    exact absurd hs (retriable_not_failed hr hf')
  · obtain ⟨-, rfl⟩ := Table.get_eq_some_iff.1 ht
    intro D' hD _
    have hes := failTask_events (t := { t with runnerId := none }) (hreg _ t ht) hD
    rw [hes.filter]
    exact .inr hes
  · exact (Silent.ok D).accounted

/-! ## Tasks stay of registered types -/

theorem AllRegistered.update {T : Table} {f : Task → Task}
    (hreg : ∀ j u, T.get j = some u → E.registered u.typeCode = true)
    (hf : ∀ u, T.get id = some u → E.registered (f u).typeCode = true) :
    ∀ j u, (T.update id f).get j = some u → E.registered u.typeCode = true := by
  intro j u hu
  by_cases hj : j = id
  · subst hj
    rcases hv : T.get j with _ | v
    · unfold Table.update at hu
      rw [Table.get_updateAll, hv] at hu
      cases hu
    · rw [Table.get_update_self hv] at hu
      obtain rfl := Option.some.inj hu
      exact hf v hv
  · rw [Table.get_update_of_ne hj] at hu
    exact hreg j u hu

theorem modify_registered {es : List TxEvent} {f : Task → Except TaskError Task}
    (hreg : AllRegistered E D) (hf : ∀ t t', f t = .ok t' → t'.typeCode = t.typeCode)
    (h : (D.modify es id f).result = .ok D') : AllRegistered E D' := by
  obtain ⟨t, t', ht, hft, rfl, -⟩ := modify_ok h
  exact AllRegistered.update hreg fun u _ => by rw [hf t t' hft]; exact hreg id t ht

theorem onFailure_registered (hT : (hooks t.typeCode).Tame E) (hreg : AllRegistered E D)
    (h : (D.onFailure E hooks cause t).result = .ok D') : AllRegistered E D' := by
  rcases onFailure_ok h with rfl | hr
  · exact hreg
  · exact hT.failure_registered _ _ _ _ hr hreg

theorem actionFail_type {now : ℕ} {text : Option String} {data : Option Json} {t' : Task}
    (h : GenericTaskQueue.actionFail now text data t = .ok t') : t'.typeCode = t.typeCode := by
  obtain ⟨-, rfl⟩ := checked_ok h
  rfl

theorem failTask_registered (hT : (hooks t.typeCode).Tame E) (hreg : AllRegistered E D)
    (h : (D.failTask E hooks cause error t).result = .ok D') : AllRegistered E D' := by
  obtain ⟨D₁, h1, h2⟩ := Run.andThen_ok h
  exact modify_registered (onFailure_registered hT hreg h1) (fun _ _ => actionFail_type) h2

theorem handleLostExecution_type {reg : Registry} {now : ℕ} {t' : Task}
    (h : GenericTaskQueue.handleLostExecution reg now error t = .ok t') :
    t'.typeCode = t.typeCode := by
  rcases handleLostExecution_cases h with ⟨-, h⟩ | ⟨-, -, rfl⟩ | ⟨-, -, h⟩
  · obtain ⟨-, rfl⟩ := checked_ok h
    rfl
  · rfl
  · obtain ⟨-, rfl⟩ := checked_ok h
    rfl

theorem handleLostExecution_registered (hT : ∀ code, (hooks code).Tame E)
    (hreg : AllRegistered E D)
    (h : (D.handleLostExecution E hooks error runner worker id).result = .ok D') :
    AllRegistered E D' := by
  unfold handleLostExecution at h
  rcases ht : D.tasks.get id with _ | t
  · simp only [ht] at h
    obtain rfl := Except.ok.inj h
    exact hreg
  simp only [ht] at h
  split_ifs at h
  · exact modify_registered hreg (fun _ _ => handleLostExecution_type) h
  · refine failTask_registered (hT _) ?_ h
    exact AllRegistered.update hreg fun _ _ => hreg id t ht
  · obtain rfl := Except.ok.inj h
    exact hreg

/-! ## The transactions -/

theorem recoverOne_registered (hT : ∀ code, (hooks code).Tame E) (hreg : AllRegistered E D)
    (h : (recoverOne E hooks error id D).result = .ok D') : AllRegistered E D' := by
  rcases Run.savepoint_ok h with h | ⟨-, rfl⟩
  · exact handleLostExecution_registered hT hreg h
  · exact hreg

theorem unown_get {T : Table} {ids : List TaskId} {j : TaskId} :
    (T.updateAll ids fun t => { t with workerId := none }).get j = (T.get j).map fun t =>
      if j ∈ ids then { t with workerId := none, id := j } else t := by
  rw [Table.get_updateAll]

theorem recoverLostExecutions_accounted (hT : ∀ code, (hooks code).Tame E)
    (hreg : AllRegistered E D) {waiting ids : List TaskId} (hnd : ids.Nodup) :
    Accounted (TxEvent.about k) (fun D => Failed (D.tasks.get k))
      (FailedBy k (· = .taskAbandonedError error)) D
      (D.recoverLostExecutions E hooks waiting ids error) := by
  have hown : ∀ j, Failed ((D.tasks.updateAll waiting fun t => { t with workerId := none }).get j) ↔
      Failed (D.tasks.get j) := by
    intro j
    unfold Failed
    rw [unown_get, Option.map_map]
    rcases D.tasks.get j with _ | t
    · rfl
    · simp only [Option.map_some, Function.comp_apply, Option.some.injEq]
      split_ifs <;> rfl
  have hreg' : AllRegistered E
      { D with tasks := D.tasks.updateAll waiting fun t => { t with workerId := none } } := by
    intro j u hu
    rw [unown_get] at hu
    obtain ⟨t, ht, rfl⟩ := Option.map_eq_some_iff.1 hu
    split_ifs <;> exact hreg j t ht
  have key := each_accounted (f := recoverOne E hooks error) (k := k)
    (I := AllRegistered E) (fun j s s' hs h => recoverOne_registered hT hs h)
    (fun j hj s => (handleLostExecution_silent hT hj).savepoint)
    (fun s hs => (handleLostExecution_accounted hs).savepoint) hnd _ hreg'
  intro D' hD hF
  rcases key D' hD hF with h | h
  · exact .inl ((hown k).1 h)
  · exact .inr h

theorem resolvedStuckThread_accounted (hT : ∀ code, (hooks code).Tame E)
    (hreg : AllRegistered E D) {r : RunnerId} :
    Accounted (TxEvent.about k) (fun D => Failed (D.tasks.get k))
      (FailedBy k fun c => k = id ∧ c = .taskAbandonedError resolvedStuckError) D
      (D.resolvedStuckThread E hooks r id) := by
  unfold resolvedStuckThread
  rcases D.tasks.get id with _ | t
  · exact nofun
  simp only
  split_ifs
  · exact (Silent.ok D).accounted
  · exact (Silent.ok D).accounted
  · by_cases hk : id = k
    · subst hk
      intro D' hD hF
      exact (handleLostExecution_accounted hreg D' hD hF).imp_right
        fun h => h.mono fun c hc => ⟨rfl, hc⟩
    · exact (handleLostExecution_silent hT hk).accounted

theorem retries_not_failed {reg : Registry} {now : ℕ} {exc : Exc} {tb : String} {u u' : Task}
    (hr : retriesFailure exc t = true) (h : handleFailure reg now exc tb t u = .ok u') :
    u'.state ≠ .failed := by
  rcases handleFailure_cases h with ⟨-, _, rfl⟩ | ⟨hn, -⟩
  · nofun
  · rw [hr] at hn
    cases hn

theorem failureHandler_accounted (hT : ∀ code, (hooks code).Tame E) (hreg : AllRegistered E D)
    {r : RunnerId} {exc : Exc} {tb : String} :
    Accounted (TxEvent.about k) (fun D => Failed (D.tasks.get k))
      (FailedBy k fun c => k = id ∧ c = .raised exc) D
      (D.failureHandler E hooks r id exc tb) := by
  unfold failureHandler
  rcases ht : D.tasks.get id with _ | t
  · exact nofun
  simp only
  split_ifs with hr hf
  · exact (modify_silent rfl fun _ u u' _ hu hs =>
      absurd hs (retries_not_failed hr hu)).accounted
  · exact (Silent.ok D).accounted
  obtain ⟨-, rfl⟩ := Table.get_eq_some_iff.1 ht
  by_cases hk : t.id = k
  · subst hk
    intro D' hD hF
    obtain ⟨D₁, h1, h2⟩ := Run.andThen_ok hD
    rw [Run.andThen_of_ok h1, Run.after_events]
    split_ifs at h2 ⊢ with hown
    · obtain ⟨ended, hes⟩ := onFailure_events (hreg _ t ht)
      rw [hes, actionFail_events h2]
      exact .inr ⟨_, ended, tb, ⟨rfl, rfl⟩, by simp [TxEvent.about]⟩
    · obtain rfl := Except.ok.inj h2
      exact .inl (onFailure_fails (hT _) h1 hF)
  · refine ((onFailure_silent (hT _) hk).andThen fun D₁ _ => ?_).accounted
    split_ifs
    · exact actionFail_silent hk
    · exact .ok D₁

/-- Why the check of a waiting parent fails it. -/
def CheckCause (D : Database σ) (hooks : TypeCode → TypeHooks σ) (id : TaskId)
    (c : FailureCause) : Prop :=
  (c = .childTasksFailedError (failedNames D.tasks id) ∧
    ∃ u ∈ D.tasks.children id, u.state = .failed ∧ ¬ Retriable u) ∨
  ∃ p text, D.tasks.get id = some p ∧ c = .raised (.other text) ∧
    (hooks p.typeCode).onAllChildrenDone p D = .error (.other text)

theorem afterHook_silent {v : Option Json} :
    Silent (TxEvent.about k) (fun D => Failed (D.tasks.get k)) D (D.afterHook E v id) := by
  unfold afterHook
  split_ifs
  · exact .ok D
  · exact .ok D
  · refine modify_silent rfl fun _ u u' _ hu hs => ?_
    obtain ⟨-, rfl⟩ := checked_ok hu
    cases hs

theorem completeParent_accounted (hT : ∀ code, (hooks code).Tame E) {p : Task}
    (hp : D.tasks.get p.id = some p) :
    Accounted (TxEvent.about k) (fun D => Failed (D.tasks.get k))
      (FailedBy k fun c => k = p.id ∧ CheckCause D hooks p.id c) D
      (D.completeParent E hooks p) := by
  unfold completeParent
  split_ifs with hr
  · rcases hh : (hooks p.typeCode).onAllChildrenDone p D with exc | ⟨D₁, v⟩
    · cases exc with
      | transientError => exact nofun
      | retryTask after => exact fun D' hD hF => .inl (Except.ok.inj hD ▸ hF)
      | other text =>
        by_cases hk : p.id = k
        · subst hk
          intro D' hD _
          have hes := failTask_events hr hD
          right
          rw [Run.after_events, List.filter_append, hes.filter]
          exact hes.mono fun c hc => ⟨rfl, .inr ⟨p, text, hp, hc, hh⟩⟩
        · exact fun D' hD hF => .inl ((failTask_silent (hT _) hk).result D' hD hF)
    · exact fun D' hD hF =>
        .inl (((hT _).done_fails _ _ _ _ hh) k (afterHook_silent.result D' hD hF))
  · exact afterHook_silent.accounted

theorem checkWaitingParent_accounted (hT : ∀ code, (hooks code).Tame E)
    (hreg : AllRegistered E D) :
    Accounted (TxEvent.about k) (fun D => Failed (D.tasks.get k))
      (FailedBy k fun c => k = id ∧ CheckCause D hooks id c) D
      (D.checkWaitingParent E hooks id) := by
  unfold checkWaitingParent
  rcases ht : D.tasks.get id with _ | p
  · exact (Silent.ok D).accounted
  obtain ⟨-, rfl⟩ := Table.get_eq_some_iff.1 ht
  simp only
  split_ifs with hw hnil ha hn hf
  · exact (Silent.ok D).accounted
  · refine (modify_silent rfl fun _ u u' _ hu hs => ?_).accounted
    obtain ⟨-, rfl⟩ := checked_ok hu
    cases hs
  · exact (Silent.ok D).accounted
  · by_cases hk : p.id = k
    · subst hk
      intro D' hD _
      have hes := failTask_events (hreg _ p ht) hD
      rw [hes.filter]
      obtain ⟨u, hu, hfu⟩ := List.any_eq_true.1 hn
      exact .inr (hes.mono fun c hc => ⟨rfl, .inl ⟨hc, u, hu, nonRetriable_iff.1 hfu⟩⟩)
    · exact (failTask_silent (hT _) hk).accounted
  · exact (Silent.ok D).accounted
  · exact completeParent_accounted hT ht

end Database

/-! ## Every commit -/

/-- With which exception `on_failure` is to be called on the task, if this transaction fails it. -/
def HookTx.Cause (a : HookTx) (D : Database σ) (hooks : TypeCode → TypeHooks σ) (k : TaskId)
    (c : FailureCause) : Prop :=
  match a with
  | .failureHandler _ id exc _ => k = id ∧ c = .raised exc
  | .recoverLostExecutions _ _ error => c = .taskAbandonedError error
  | .resolvedStuckThread _ id => k = id ∧ c = .taskAbandonedError resolvedStuckError
  | .checkWaitingParent id => k = id ∧ Database.CheckCause D hooks id c

theorem HookTx.accounted {E : Env} {hooks : TypeCode → TypeHooks σ} {D : Database σ} {k : TaskId}
    (a : HookTx) (hT : ∀ code, (hooks code).Tame E) (hreg : AllRegistered E D) :
    Accounted (TxEvent.about k) (fun D => Failed (D.tasks.get k))
      (FailedBy k (a.Cause D hooks k)) D (a.run E hooks D) := by
  cases a with
  | failureHandler runner id exc tb => exact Database.failureHandler_accounted hT hreg
  | recoverLostExecutions waiting ids error =>
    exact Database.recoverLostExecutions_accounted hT hreg ids.2
  | resolvedStuckThread runner id => exact Database.resolvedStuckThread_accounted hT hreg
  | checkWaitingParent id => exact Database.checkWaitingParent_accounted hT hreg

theorem mem_writeSet {T T' : Table} {k : TaskId} {o : Option Task}
    (h : (k, o) ∈ writeSet T T') : T.get k ≠ T'.get k ∧ o = T'.get k := by
  obtain ⟨j, hj, heq⟩ := List.mem_map.1 h
  obtain ⟨rfl, rfl⟩ := Prod.mk.inj heq
  exact ⟨of_decide_eq_true (List.mem_filter.1 hj).2, rfl⟩

theorem run_not_failed {reg : Registry} {a : RowAct} {o o' : Option Task} (ha : a.fails = false)
    (h : a.run reg o = .ok o') (hf : Failed o') : Failed o := by
  -- an action that leaves the task in a state other than `failed`
  have moved : ∀ {x : Except TaskError Task} (st : TaskState), st ≠ .failed → x.map some = .ok o' →
      (∀ u, x = .ok u → u.state = st) → Failed o := by
    intro x st hst hx hu
    obtain ⟨u, hxu, rfl⟩ := map_some_ok hx
    exact absurd ((hu u hxu).symm.trans (Option.some.inj hf)) hst
  rcases o with _ | t
  · simp only [RowAct.run] at h
    split at h
    · obtain rfl := Except.ok.inj h
      cases hf
    · cases h
  change a.onTask reg t = .ok o' at h
  cases a with
  | user a =>
    cases UserAct.leaves h with
    | edited he => exact (congrArg some he.state.symm).trans hf
    | cancelled hid hs => exact absurd (hs.symm.trans (Option.some.inj hf)) (by decide)
    | retried hid hs => exact absurd (hs.symm.trans (Option.some.inj hf)) (by decide)
    | deleted => cases hf
  | assign worker uuid =>
    exact moved .assigned (by decide) h fun u hu => by rw [(claimRow_eq hu).2]; rfl
  | start now => exact moved .running (by decide) h fun u hu => by rw [(checked_ok hu).2]
  | stuck => exact moved .stuck (by decide) h fun u hu => by rw [(checked_ok hu).2]
  | waitChildren => exact moved .waiting (by decide) h fun u hu => by rw [(checked_ok hu).2]
  | progress value => obtain rfl := Except.ok.inj h; exact hf
  | done runner now result =>
    exact moved .done (by decide) h fun u hu => by rw [(checked_ok hu).2]
  | failure runner now exc traceback read => cases ha
  | lostExecution runner worker now error => cases ha
  | autoRetry now =>
    obtain rfl := Except.ok.inj h
    have hp : TaskState.pending = .failed := Option.some.inj hf
    cases hp
  | unown => obtain rfl := Except.ok.inj h; exact hf
  | lockWaiting => obtain rfl := Except.ok.inj h; exact hf
  | move now m =>
    cases m with
    | done result => exact moved .done (by decide) h fun u hu => by rw [(checked_ok hu).2]
    | fail error => cases ha
    | cancel => exact moved .cancelled (by decide) h fun u hu => by rw [(checked_ok hu).2]

theorem Statements.not_failed {p : Statements} {reg : Registry} {T : Table} {W : WriteSet}
    (h : p.writes reg T = .ok W) {k : TaskId} {o : Option Task} (hk : (k, o) ∈ W)
    (hf : Failed o) : Failed (T.get k) := by
  obtain ⟨q, -, hq⟩ := mem_mapM_ok h _ hk
  obtain ⟨o', ho', heq⟩ := map_ok hq
  obtain ⟨rfl, rfl⟩ := Prod.mk.inj heq
  obtain ⟨r, hr, rfl⟩ := map_ok ho'
  refine runActs_rel (R := fun o o' => Failed o' → Failed o) (fun _ h => h)
    (fun h1 h2 h => h1 (h2 h)) (fun a ha o o' _ hrun hf => ?_) hr hf
  obtain ⟨s, hs, rfl⟩ := List.mem_map.1 ha
  exact run_not_failed (p.plain s (List.mem_of_mem_filter hs)) hrun hf

/-! ## An `on_failure` that raises -/

def FailureHookRun.silenced (D : Database σ) : FailureHookRun σ → FailureHookRun σ
  | .raised _ => .returned D
  | r => r

/-- The same hooks, except that an `on_failure` that would raise does nothing. -/
def TypeHooks.silenced (h : TypeHooks σ) : TypeHooks σ where
  onAllChildrenDone := h.onAllChildrenDone
  onFailure cause t D := (h.onFailure cause t D).silenced D

def silenced (hooks : TypeCode → TypeHooks σ) (code : TypeCode) : TypeHooks σ :=
  (hooks code).silenced

def TxEvent.silenced : TxEvent → TxEvent
  | .onFailure id cause (.raised _) => .onFailure id cause .returned
  | e => e

def TxEvent.raisedOn (k : TaskId) : TxEvent → Bool
  | .onFailure id _ (.raised _) => id = k
  | _ => false

/-- An `on_failure` of the transaction has raised on the task. -/
def Commit.raisedOn (c : Commit σ) (k : TaskId) : Bool := c.events.any (TxEvent.raisedOn k)

/-- The transaction, except that an `on_failure` that would raise does nothing. -/
def Commit.silenced (c : Commit σ) : Commit σ :=
  { c with
    hooks := GenericTaskQueue.silenced c.hooks
    ticks := fun k => if c.raisedOn k then [] else c.ticks k }

/-- What those calls have ticked. -/
def Commit.raisedTicks (c : Commit σ) : List Tick :=
  { c with ticks := fun k => if c.raisedOn k then c.ticks k else [] }.ticked

/-- One of these ticks is on a row that the transaction writes. -/
def Commit.ticksOwnWrites (c : Commit σ) : Prop :=
  ∃ W, c.writes = some W ∧ ∃ p ∈ c.raisedTicks, p.1 ∈ W.map Prod.fst

/-- Every call of `on_failure` that raised is followed at once by the failure of its task. -/
def RaisedThenFailed : List TxEvent → Prop
  | .onFailure k _ (.raised _) :: es => (∃ error es', es = .failed k error :: es') ∧
      RaisedThenFailed es
  | _ :: es => RaisedThenFailed es
  | [] => True

theorem RaisedThenFailed.append : ∀ {l₁ l₂ : List TxEvent}, RaisedThenFailed l₁ →
    RaisedThenFailed l₂ → RaisedThenFailed (l₁ ++ l₂) := by
  intro l₁ l₂ h₁ h₂
  induction l₁ with
  | nil => exact h₂
  | cons e l₁ ih =>
    cases e with
    | onFailure k cause ended =>
      cases ended with
      | raised exc =>
        obtain ⟨⟨error, es', rfl⟩, h⟩ := h₁
        exact ⟨⟨error, es' ++ l₂, rfl⟩, ih h⟩
      | returned => exact ih h₁
      | aborted => exact ih h₁
    | _ => exact ih h₁

namespace Database

variable {D D' : Database σ} {E : Env} {hooks : TypeCode → TypeHooks σ} {id k : TaskId} {t : Task}
  {cause : FailureCause} {error : String}

theorem modify_silenced {es : List TxEvent} {f : Task → Except TaskError Task}
    (h : es.map TxEvent.silenced = es) :
    D.modify es id f = (D.modify es id f).relabel TxEvent.silenced := by
  unfold modify Run.relabel
  split
  · rfl
  · split
    · exact congrArg (Run.mk · _) h.symm
    · rfl

theorem onFailure_silenced : D.onFailure E (silenced hooks) cause t =
    (D.onFailure E hooks cause t).relabel TxEvent.silenced := by
  unfold onFailure
  split_ifs
  · simp only [GenericTaskQueue.silenced, TypeHooks.silenced]
    rcases (hooks t.typeCode).onFailure cause t D with D' | exc | _ <;> rfl
  · rfl

theorem failTask_silenced : D.failTask E (silenced hooks) cause error t =
    (D.failTask E hooks cause error t).relabel TxEvent.silenced :=
  Run.relabel_andThen onFailure_silenced fun _ => modify_silenced rfl

theorem handleLostExecution_silenced {runner : Option RunnerId} {worker : Option WorkerId} :
    D.handleLostExecution E (silenced hooks) error runner worker id =
      (D.handleLostExecution E hooks error runner worker id).relabel TxEvent.silenced := by
  unfold handleLostExecution
  rcases D.tasks.get id with _ | t
  · rfl
  simp only
  split_ifs
  · exact modify_silenced rfl
  · exact failTask_silenced
  · rfl

theorem failureHandler_silenced {r : RunnerId} {exc : Exc} {tb : String} :
    D.failureHandler E (silenced hooks) r id exc tb =
      (D.failureHandler E hooks r id exc tb).relabel TxEvent.silenced := by
  unfold failureHandler
  rcases D.tasks.get id with _ | t
  · rfl
  simp only
  split_ifs
  · exact modify_silenced rfl
  · rfl
  · refine Run.relabel_andThen onFailure_silenced fun D' => ?_
    split_ifs
    · exact modify_silenced rfl
    · rfl

theorem resolvedStuckThread_silenced {r : RunnerId} :
    D.resolvedStuckThread E (silenced hooks) r id =
      (D.resolvedStuckThread E hooks r id).relabel TxEvent.silenced := by
  unfold resolvedStuckThread
  rcases D.tasks.get id with _ | t
  · rfl
  simp only
  split_ifs
  · rfl
  · rfl
  · exact handleLostExecution_silenced

theorem afterHook_silenced {v : Option Json} :
    D.afterHook E v id = (D.afterHook E v id).relabel TxEvent.silenced := by
  unfold afterHook
  split_ifs
  · rfl
  · rfl
  · exact modify_silenced rfl

theorem after_silenced {r r' : TxRun σ} {es : List TxEvent} (h : r' = r.relabel TxEvent.silenced)
    (hes : es.map TxEvent.silenced = es) : r'.after es = (r.after es).relabel TxEvent.silenced := by
  rw [h, ← Run.relabel_after, hes]

theorem completeParent_silenced {p : Task} : D.completeParent E (silenced hooks) p =
    (D.completeParent E hooks p).relabel TxEvent.silenced := by
  unfold completeParent
  simp only [GenericTaskQueue.silenced, TypeHooks.silenced]
  split_ifs
  · rcases (hooks p.typeCode).onAllChildrenDone p D with exc | ⟨D', v⟩
    · cases exc with
      | other text => exact after_silenced failTask_silenced rfl
      | _ => rfl
    · exact after_silenced afterHook_silenced rfl
  · exact afterHook_silenced

theorem checkWaitingParent_silenced : D.checkWaitingParent E (silenced hooks) id =
    (D.checkWaitingParent E hooks id).relabel TxEvent.silenced := by
  unfold checkWaitingParent
  rcases D.tasks.get id with _ | p
  · rfl
  simp only
  split_ifs
  · rfl
  · exact modify_silenced rfl
  · rfl
  · exact failTask_silenced
  · rfl
  · exact completeParent_silenced

/-! ## A hook that raises is followed by the failure -/

theorem raisedThenFailed_modify {f : Task → Except TaskError Task} {es : List TxEvent}
    (h : RaisedThenFailed es) : RaisedThenFailed (D.modify es id f).events := by
  unfold modify
  split
  · trivial
  · split
    · exact h
    · trivial

theorem failTask_raised (ht : D.tasks.get t.id = some t)
    (hs : .failed ∈ allowedTransitions t.state) :
    RaisedThenFailed (D.failTask E hooks cause error t).events := by
  unfold failTask onFailure
  split_ifs
  · rcases (hooks t.typeCode).onFailure cause t D with D' | exc | _
    · rw [Run.andThen_of_ok rfl]
      exact raisedThenFailed_modify trivial
    · rw [Run.andThen_of_ok rfl, actionFail_eq ht hs]
      exact ⟨⟨error, [], rfl⟩, trivial⟩
    · trivial
  · exact raisedThenFailed_modify trivial

theorem handleLostExecution_raised {runner : Option RunnerId} {worker : Option WorkerId} :
    RaisedThenFailed (D.handleLostExecution E hooks error runner worker id).events := by
  unfold handleLostExecution
  rcases ht : D.tasks.get id with _ | t
  · trivial
  simp only
  split_ifs with hf hr
  · exact raisedThenFailed_modify trivial
  · obtain ⟨-, rfl⟩ := Table.get_eq_some_iff.1 ht
    refine failTask_raised (Table.get_update_self ht) ?_
    show .failed ∈ allowedTransitions t.state
    rcases running_or_stuck (finalizable_iff.1 hf).1 fun h => hr (.inl h) with hs | hs <;>
      rw [hs] <;> decide
  · trivial

theorem failureHandler_raised {r : RunnerId} {exc : Exc} {tb : String}
    (hown : (D.tasks.get id).any (finalizable finalStates (some r) none) = true) :
    RaisedThenFailed (D.failureHandler E hooks r id exc tb).events := by
  unfold failureHandler
  rcases ht : D.tasks.get id with _ | t
  · trivial
  simp only
  split_ifs
  · exact raisedThenFailed_modify trivial
  · trivial
  obtain ⟨-, rfl⟩ := Table.get_eq_some_iff.1 ht
  rw [ht] at hown
  have hs : .failed ∈ allowedTransitions t.state := by
    have := (finalizable_iff.1 hown).1
    revert this
    cases t.state <;> decide
  have hend : ∀ D' : Database σ, RaisedThenFailed
      (if (D'.tasks.get t.id).any (finalizable finalStates (some r) none) then
        D'.actionFail E tb t.id else .ok D').events := by
    intro D'
    split_ifs
    · exact raisedThenFailed_modify trivial
    · trivial
  unfold onFailure
  split_ifs
  · rcases (hooks t.typeCode).onFailure (.raised exc) t D with D' | exc' | _
    · rw [Run.andThen_of_ok rfl]
      exact hend D'
    · rw [Run.andThen_of_ok rfl, ht, if_pos hown, actionFail_eq ht hs]
      exact ⟨⟨tb, [], rfl⟩, trivial⟩
    · trivial
  · exact hend D

theorem checkWaitingParent_raised :
    RaisedThenFailed (D.checkWaitingParent E hooks id).events := by
  have hafter : ∀ (D' : Database σ) (v : Option Json) (i : TaskId),
      RaisedThenFailed (D'.afterHook E v i).events := by
    intro D' v i
    unfold afterHook
    split_ifs
    · trivial
    · trivial
    · exact raisedThenFailed_modify trivial
  unfold checkWaitingParent
  rcases ht : D.tasks.get id with _ | p
  · trivial
  obtain ⟨-, rfl⟩ := Table.get_eq_some_iff.1 ht
  simp only
  split_ifs with hw
  · trivial
  · exact raisedThenFailed_modify trivial
  · trivial
  · exact failTask_raised ht (by rw [not_not.1 hw]; decide)
  · trivial
  unfold completeParent
  split_ifs
  · rcases (hooks p.typeCode).onAllChildrenDone p D with exc | ⟨D', v⟩
    · cases exc with
      | other text => exact failTask_raised ht (by rw [not_not.1 hw]; decide)
      | _ => trivial
    · exact hafter D' v p.id
  · exact hafter D none p.id

end Database

/-- In its transaction, an `on_failure` that raises leaves what it would leave if it did nothing. -/
theorem HookTx.silenced (a : HookTx) (E : Env) (hooks : TypeCode → TypeHooks σ) (D : Database σ) :
    a.run E (GenericTaskQueue.silenced hooks) D = (a.run E hooks D).relabel TxEvent.silenced := by
  cases a with
  | failureHandler runner id exc tb => exact Database.failureHandler_silenced
  | recoverLostExecutions waiting ids error =>
    exact each_relabel (fun j s => congrArg (Run.savepoint _ s)
      Database.handleLostExecution_silenced) _ _
  | resolvedStuckThread runner id => exact Database.resolvedStuckThread_silenced
  | checkWaitingParent id => exact Database.checkWaitingParent_silenced

/-- The task belongs to a thread that has lost it. -/
def HookTx.Disowned (a : HookTx) (D : Database σ) : Prop :=
  ∃ runner id exc tb, a = .failureHandler runner id exc tb ∧
    (D.tasks.get id).any (finalizable finalStates (some runner) none) = false

theorem HookTx.raised (a : HookTx) (E : Env) (hooks : TypeCode → TypeHooks σ) (D : Database σ) :
    RaisedThenFailed (a.run E hooks D).events ∨ a.Disowned D := by
  cases a with
  | failureHandler runner id exc tb =>
    cases h : (D.tasks.get id).any (finalizable finalStates (some runner) none) with
    | true => exact .inl (Database.failureHandler_raised h)
    | false => exact .inr ⟨runner, id, exc, tb, rfl, h⟩
  | recoverLostExecutions waiting ids error =>
    have hone : ∀ j (s : Database σ),
        RaisedThenFailed (Database.recoverOne E hooks error j s).events := fun j s =>
      Database.handleLostExecution_raised
    exact .inl (each_events (Q := RaisedThenFailed) trivial RaisedThenFailed.append hone _ _)
  | resolvedStuckThread runner id =>
    refine .inl ?_
    show RaisedThenFailed (D.resolvedStuckThread E hooks runner id).events
    unfold Database.resolvedStuckThread
    rcases D.tasks.get id with _ | t
    · trivial
    simp only
    split_ifs
    · trivial
    · trivial
    · exact Database.handleLostExecution_raised
  | checkWaitingParent id => exact .inl Database.checkWaitingParent_raised

/-! ## Runs -/

/-- What is asked of a transaction: its hooks are tame, and its tasks of registered types. -/
structure Commit.Tame (c : Commit σ) : Prop where
  hooks : ∀ code, (c.hooks code).Tame c.env
  registered : AllRegistered c.env c.snapshot

theorem Rows.tick_failed {cur : Rows} {l : List Tick} {k : TaskId} :
    Failed (cur.tick l k) ↔ Failed (cur k) := by
  unfold Failed Rows.tick
  rw [Option.map_map]
  rfl

theorem Rows.tick_of_not_mem {cur : Rows} {l : List Tick} {k : TaskId} (h : k ∉ l.map Prod.fst) :
    cur.tick l k = cur k := by
  have hl : l.reverse.lookup k = none := by
    refine List.lookup_eq_none_iff.2 fun p hp => ?_
    have hne : k ≠ p.1 := fun heq => h (heq ▸ List.mem_map_of_mem (List.mem_reverse.1 hp))
    exact bne_iff_ne.2 hne
  unfold Rows.tick
  rw [hl]
  cases cur k <;> rfl

/-- A row that a commit has changed, and not only its progress, is one that it wrote, and was as in
the snapshot. -/
theorem commit_changed {cur cur' : Rows} {c : Commit σ} (h : commit cur c = some cur') {k : TaskId}
    (hne : cur' k ≠ cur.tick c.ticked k) :
    ∃ W, c.writes = some W ∧ (k, cur' k) ∈ W ∧
      cur.tick c.ticked k = c.snapshot.tasks.get k := by
  unfold commit at h
  rcases hW : c.writes with _ | W
  · simp only [hW] at h
    obtain rfl := Option.some.inj h
    exact absurd rfl hne
  · simp only [hW] at h
    split_ifs at h with hc
    · obtain rfl := Option.some.inj h
      rcases hl : W.lookup k with _ | o
      · simp only [hl, Option.getD_none] at hne
        exact absurd rfl hne
      · obtain ⟨l₁, l₂, rfl, -⟩ := List.lookup_eq_some_iff.1 hl
        have hm : (k, o) ∈ l₁ ++ (k, o) :: l₂ := List.mem_append_right _ List.mem_cons_self
        refine ⟨_, rfl, by simp [hl], ?_⟩
        exact of_decide_eq_true (List.all_eq_true.1 hc _ hm)
    · obtain rfl := Option.some.inj h
      exact absurd rfl hne

/-- **Step.** A commit fails a task only if it has told its `on_failure` before. -/
theorem commit_failed {cur cur' : Rows} {c : Commit σ} (hc : c.Tame) (h : commit cur c = some cur')
    {k : TaskId} (h0 : ¬ Failed (cur k)) (h1 : Failed (cur' k)) :
    ∃ a, c.tx = .hooked a ∧
      FailedBy k (a.Cause c.snapshot c.hooks k) (c.events.filter (TxEvent.about k)) := by
  obtain ⟨W, hW, hm, hcur⟩ := commit_changed h fun he => h0 (Rows.tick_failed.1 (he ▸ h1))
  unfold Commit.writes at hW
  unfold Commit.events
  rcases htx : c.tx with a | p
  · simp only [htx] at hW ⊢
    rcases hr : (a.run c.env c.hooks c.snapshot).result with e | D'
    · simp only [hr] at hW
      cases hW
    · simp only [hr] at hW
      obtain rfl := Option.some.inj hW
      obtain ⟨-, hk⟩ := mem_writeSet hm
      have hD : Failed (D'.tasks.get k) := hk ▸ h1
      rcases a.accounted hc.hooks hc.registered D' hr hD with hf | hf
      · exact absurd (Rows.tick_failed.1 (hcur ▸ hf)) h0
      · exact ⟨a, rfl, hf⟩
  · simp only [htx] at hW
    rcases hr : p.writes c.env.reg c.snapshot.tasks with e | W'
    · simp only [hr] at hW
      cases hW
    · simp only [hr] at hW
      obtain rfl := Option.some.inj hW
      exact absurd (Rows.tick_failed.1 (hcur ▸ Statements.not_failed hr hm h1)) h0

/-! ## What an `on_failure` that raises leaves behind -/

theorem Commit.silenced_events (c : Commit σ) :
    c.silenced.events = c.events.map TxEvent.silenced := by
  unfold Commit.events
  show (match c.tx with
    | .hooked a => (a.run c.env (GenericTaskQueue.silenced c.hooks) c.snapshot).events
    | .statements _ => []) = _
  cases c.tx with
  | hooked a => exact congrArg Run.events (a.silenced c.env c.hooks c.snapshot)
  | statements p => rfl

theorem Commit.silenced_writes (c : Commit σ) : c.silenced.writes = c.writes := by
  unfold Commit.writes
  show (match c.tx with
    | .hooked a => match (a.run c.env (GenericTaskQueue.silenced c.hooks) c.snapshot).result with
      | .ok D => some (writeSet c.snapshot.tasks D.tasks)
      | .error _ => none
    | .statements p => match p.writes c.env.reg c.snapshot.tasks with
      | .ok W => some W
      | .error _ => none) = _
  cases c.tx with
  | hooked a => simp only [a.silenced c.env c.hooks c.snapshot, Run.relabel]
  | statements p => rfl

theorem Commit.ticksOf_silenced (c : Commit σ) (k : TaskId) (e : TxEvent)
    (h : ∀ p ∈ { c with ticks := fun k => if c.raisedOn k then c.ticks k else [] }.ticksOf e,
      p.1 ≠ k) :
    (c.silenced.ticksOf e.silenced).filter (·.1 = k) = (c.ticksOf e).filter (·.1 = k) := by
  cases e with
  | onFailure id cause ended =>
    have hid : c.silenced.ticksOf (TxEvent.onFailure id cause ended).silenced =
        c.silenced.ticksOf (.onFailure id cause ended) := by
      cases ended <;> rfl
    rw [hid]
    by_cases hr : c.raisedOn id = true
    · have hnone : (c.ticksOf (.onFailure id cause ended)).filter (·.1 = k) = [] := by
        refine List.filter_eq_nil_iff.2 fun p hp hk => h p ?_ (of_decide_eq_true hk)
        simp only [Commit.ticksOf, hr, if_true] at hp ⊢
        exact hp
      have hsil : c.silenced.ticksOf (.onFailure id cause ended) = [] := by
        simp only [Commit.ticksOf, Commit.silenced, hr, if_true]
        cases c.tx <;> rfl
      rw [hnone, hsil]
      rfl
    · simp only [Commit.ticksOf, Commit.silenced, hr, Bool.false_eq_true, if_false]
  | _ => rfl

theorem tick_congr {cur : Rows} {l l' : List Tick} {k : TaskId}
    (h : l.filter (·.1 = k) = l'.filter (·.1 = k)) : cur.tick l k = cur.tick l' k := by
  have key : ∀ l : List Tick, l.lookup k = (l.filter (·.1 = k)).lookup k := by
    intro l
    induction l with
    | nil => rfl
    | cons p l ih =>
      obtain ⟨i, v⟩ := p
      by_cases hk : i = k
      · subst hk
        rw [List.filter_cons_of_pos (by simp), List.lookup_cons_self, List.lookup_cons_self]
      · rw [List.filter_cons_of_neg (by simpa using hk), List.lookup_cons,
          beq_false_of_ne (Ne.symm hk), ih]
  unfold Rows.tick
  rw [key l.reverse, key l'.reverse, List.filter_reverse, List.filter_reverse, h]

theorem Commit.tick_silenced (c : Commit σ) {cur : Rows} {k : TaskId}
    (h : k ∉ c.raisedTicks.map Prod.fst) :
    cur.tick c.silenced.ticked k = cur.tick c.ticked k := by
  refine tick_congr ?_
  unfold Commit.ticked
  rw [c.silenced_events, List.flatMap_map, List.filter_flatMap, List.filter_flatMap]
  refine List.flatMap_congr fun e he => c.ticksOf_silenced k e fun p hp hk => h ?_
  exact List.mem_map.2 ⟨p, List.mem_flatMap.2 ⟨e, he, hp⟩, hk⟩

def Task.apartFromProgress (t : Task) : Task := { t with progress := 0 }

theorem Rows.tick_apart (cur : Rows) (l : List Tick) (k : TaskId) :
    (cur.tick l k).map Task.apartFromProgress = (cur k).map Task.apartFromProgress := by
  unfold Rows.tick
  rw [Option.map_map]
  rfl

/-- An `on_failure` that raises leaves what it has ticked, and nothing else, if this leaves the rows
alone that its transaction writes. -/
theorem commit_silenced {cur cur' : Rows} {c : Commit σ} (h : commit cur c = some cur')
    (hw : ¬ c.ticksOwnWrites) : ∃ cur₀, commit cur c.silenced = some cur₀ ∧ ∀ k,
      (k ∉ c.raisedTicks.map Prod.fst → cur' k = cur₀ k) ∧
      (cur' k).map Task.apartFromProgress = (cur₀ k).map Task.apartFromProgress := by
  have hapart : ∀ k, (cur.tick c.ticked k).map Task.apartFromProgress =
      (cur.tick c.silenced.ticked k).map Task.apartFromProgress := fun k => by
    rw [Rows.tick_apart, Rows.tick_apart]
  unfold commit at h ⊢
  rw [c.silenced_writes]
  rcases hW : c.writes with _ | W
  · simp only [hW] at h ⊢
    obtain rfl := Option.some.inj h
    exact ⟨_, rfl, fun k => ⟨fun hk => (c.tick_silenced hk).symm, hapart k⟩⟩
  · have hcur : c.silenced.current (cur.tick c.silenced.ticked) W =
        c.current (cur.tick c.ticked) W := by
      have hsame : ∀ p ∈ W, cur.tick c.silenced.ticked p.1 = cur.tick c.ticked p.1 := by
        refine fun p hp => c.tick_silenced fun hm => ?_
        obtain ⟨q, hq, heq⟩ := List.mem_map.1 hm
        exact hw ⟨W, hW, q, hq, heq ▸ List.mem_map_of_mem hp⟩
      rw [Bool.eq_iff_iff]
      unfold Commit.current
      rw [List.all_eq_true, List.all_eq_true]
      exact forall₂_congr fun p hp => by rw [hsame p hp]; rfl
    simp only [hW] at h ⊢
    rw [hcur]
    split_ifs at h ⊢
    · obtain rfl := Option.some.inj h
      refine ⟨_, rfl, fun k => ?_⟩
      cases hl : W.lookup k with
      | none =>
        simp only [hl, Option.getD_none]
        exact ⟨fun hk => (c.tick_silenced hk).symm, hapart k⟩
      | some o =>
        simp only [hl, Option.getD_some, implies_true, and_self]
    · obtain rfl := Option.some.inj h
      exact ⟨_, rfl, fun k => ⟨fun hk => (c.tick_silenced hk).symm, hapart k⟩⟩

/-- **Every path to failed.** In every run of tasks of registered types, each commit that moves a
task into `failed` has called its `on_failure` once, with the exception of its path, and then failed
it. An `on_failure` that raises is followed by the failure of its task, unless the thread that runs
it has lost the task; and the rows are left as if it had done nothing, but for the progress of tasks
that it has ticked, if none of these is a row that its transaction writes. -/
theorem failed_after_on_failure {s s' s₁ s₂ : Rows} {es : List (Commit σ)} {c : Commit σ}
    (hp : Path commit (fun _ c => c.Tame) s es s') (ht : Takes commit s es s₁ c s₂) :
    (∀ k, ¬ Failed (s₁ k) → Failed (s₂ k) → ∃ a, c.tx = .hooked a ∧
      FailedBy k (a.Cause c.snapshot c.hooks k) (c.events.filter (TxEvent.about k))) ∧
    (∀ a, c.tx = .hooked a → RaisedThenFailed c.events ∨ a.Disowned c.snapshot) ∧
    (¬ c.ticksOwnWrites → ∃ s₀, commit s₁ c.silenced = some s₀ ∧ ∀ k,
      (k ∉ c.raisedTicks.map Prod.fst → s₂ k = s₀ k) ∧
      (s₂ k).map Task.apartFromProgress = (s₀ k).map Task.apartFromProgress) := by
  obtain ⟨-, hc, hs⟩ := hp.takes ht
  refine ⟨fun k h0 h1 => commit_failed hc hs h0 h1, fun a ha => ?_, commit_silenced hs⟩
  unfold Commit.events
  simp only [ha]
  exact a.raised c.env c.hooks c.snapshot

def runningExport : Database Unit where
  tasks := {
    rows := [{ id := 1, name := "export", typeCode := "export", state := .running
               workerId := some 1, runnerId := some 7, dateCreated := 10, createUid := 2 }]
    nodup := by decide }
  others := ()

def raisingHooks : TypeHooks Unit where
  onAllChildrenDone _ D := .ok (D, none)
  onFailure _ _ _ := .raised (.other "no such record")

theorem raisingHooks_tame (E : Env) : raisingHooks.Tame E where
  keepsState _ _ _ _ h := nomatch h
  done_fails t D D' v h k hf := by
    obtain ⟨rfl, -⟩ := Prod.mk.inj (Except.ok.inj h)
    exact hf
  failure_fails _ _ _ _ h := nomatch h
  failure_registered _ _ _ _ h := nomatch h

def brokenExport : Commit Unit where
  tx := .hooked (.failureHandler 7 1 (.other "boom") "Traceback: boom")
  snapshot := runningExport
  env := ⟨[("export", {})], ["export"], 100, []⟩
  hooks _ := raisingHooks

theorem brokenExport_tame : brokenExport.Tame where
  hooks _ := raisingHooks_tame _
  registered k t ht := by
    obtain ⟨hm, -⟩ := Table.get_eq_some_iff.1 ht
    obtain rfl := List.mem_singleton.1 hm
    rfl

theorem brokenExport_told : ∃ s', commit runningExport.tasks.get brokenExport = some s' ∧
    Failed (s' 1) ∧ ∃ a, brokenExport.tx = .hooked a ∧
      FailedBy 1 (a.Cause brokenExport.snapshot brokenExport.hooks 1)
        (brokenExport.events.filter (TxEvent.about 1)) := by
  have hs : commit runningExport.tasks.get brokenExport = some (_ : Rows) := rfl
  have hp : Path commit (fun _ c => c.Tame) _ [brokenExport] _ :=
    .cons brokenExport_tame hs (.nil _)
  have ht := (failed_after_on_failure hp ⟨[], [], rfl, .nil _, hs⟩).1 1 (by decide) (by decide)
  exact ⟨_, hs, by decide, ht⟩

/-- The same export, whose `on_failure` ticks its task before it raises. -/
def tickedExport : Commit Unit := { brokenExport with ticks := fun k => [(k, 30)] }

theorem tickedExport_tame : tickedExport.Tame where
  hooks := brokenExport_tame.hooks
  registered := brokenExport_tame.registered

/-- The tick stays, and the row lock of the failure handler fails: the export goes on running. -/
theorem tick_prevents_failure : ¬ ∀ (s s' s₁ s₂ : Rows) (es : List (Commit Unit))
    (c : Commit Unit), Path commit (fun _ c => c.Tame) s es s' → Takes commit s es s₁ c s₂ →
      commit s₁ c.silenced = some s₂ := by
  intro h
  have hs : commit runningExport.tasks.get tickedExport = some (_ : Rows) := rfl
  have hsil : commit runningExport.tasks.get tickedExport.silenced = some (_ : Rows) := rfl
  have heq := h _ _ _ _ _ _ (.cons tickedExport_tame hs (.nil _)) ⟨[], [], rfl, .nil _, hs⟩
  have hrow := congrFun (Option.some.inj (hsil.symm.trans heq)) 1
  exact absurd (congrArg (Option.map Task.state) hrow) (by decide)

theorem failed_was_told {s s' : Rows} {es : List (Commit σ)} {k : TaskId}
    (hp : Path commit (fun _ c => c.Tame) s es s') (h0 : ¬ Failed (s k)) (h1 : Failed (s' k)) :
    ∃ s₁ c s₂ a, Takes commit s es s₁ c s₂ ∧ c.tx = .hooked a ∧
      FailedBy k (a.Cause c.snapshot c.hooks k) (c.events.filter (TxEvent.about k)) := by
  obtain ⟨s₁, c, s₂, ht, h2, h3⟩ := hp.brought_about (P := fun s => Failed (s k)) h0 h1
  obtain ⟨-, hc, hs⟩ := hp.takes ht
  obtain ⟨a, ha, hf⟩ := commit_failed hc hs h2 h3
  exact ⟨s₁, c, s₂, a, ht, ha, hf⟩

/-! ## The other models of these transactions -/

section Given

variable {γ : Type} {E : Env} {hook : Hook γ} {hooks : Hooks} {T : Table} {id : TaskId} {t : Task}
  {error : String}

theorem savepoint_tasks {r : TxRun Unit} {x : Except TaskError Table}
    (h : r.result.map Database.tasks = match x with
      | .ok T' => .ok T'
      | .error (.validationError e) => .error (.other e)) :
    (r.savepoint (fun e => decide (e ≠ Exc.transientError)) ⟨T, ()⟩).result.map Database.tasks =
      .ok (x.toOption.getD T) := by
  obtain ⟨es, e | D⟩ := r
  · rcases x with ⟨msg⟩ | T'
    · obtain rfl := Except.error.inj h
      rfl
    · cases h
  · rcases x with ⟨msg⟩ | T'
    · cases h
    · obtain rfl := Except.ok.inj h
      rfl

/-- **Refinement.** For hooks given by what one call does, a recovery changes the task table as that
of a sweep does. -/
theorem recoverOne_tasks (ht : T.get id = some t) (hreg : E.registered t.typeCode = true) :
    (Database.recoverOne E (fun _ => givenHooks E hook hooks) error id ⟨T, ()⟩).result.map
      Database.tasks = .ok (recoverOne E hooks (fun _ => false) error T id) := by
  obtain ⟨-, rfl⟩ := Table.get_eq_some_iff.1 ht
  have key : (Database.handleLostExecution ⟨T, ()⟩ E (fun _ => givenHooks E hook hooks) error
      ((T.get t.id).bind Task.runnerId) ((T.get t.id).bind Task.workerId) t.id).result.map
        Database.tasks = match recoverTask E hooks error ((T.get t.id).bind Task.runnerId)
          ((T.get t.id).bind Task.workerId) t.id T with
      | .ok T' => .ok T'
      | .error (.validationError e) => .error (.other e) := by
    unfold Database.handleLostExecution recoverTask
    simp only [ht, Option.bind_some]
    split_ifs with hf hr
    · exact modify_tasks ht
    · refine (failTask_tasks (p := { t with runnerId := none }) (Table.get_update_self ht)
        hreg).trans ?_
      unfold failParent
      rcases (runTaskTypeHook E (hooks.onFailure t.id) _ _).1.modify t.id _ with ⟨e⟩ | T' <;> rfl
    · rfl
  refine (savepoint_tasks key).trans ?_
  unfold recoverOne
  rcases recoverTask E hooks error ((T.get t.id).bind Task.runnerId)
    ((T.get t.id).bind Task.workerId) t.id T with e | T' <;> rfl

end Given

/-- The transactions of the queue other than these four issue no statement that fails a task. -/
theorem other_stmts_plain {reg : Registry} {a : Tx} {snap : RowStore.Snapshot TaskId Task}
    {L : List TaskId} (h1 : ∀ r k now body exc tb, a ≠ .failureHandler r k now body exc tb)
    (h2 : ∀ w ids now error body, a ≠ .recoverLostExecutions w ids now error body)
    (h3 : ∀ r k now body, a ≠ .resolvedStuckThread r k now body)
    (h4 : ∀ k now body m, a ≠ .checkWaitingParent k now body m) :
    ∀ p ∈ a.stmts reg snap L, p.2.fails = false := by
  rintro ⟨k, act⟩ hm
  cases stmts_issues hm with
  | failure r now body exc tb => exact absurd rfl (h1 _ _ _ _ _ _)
  | recovered w ids now error body => exact absurd rfl (h2 _ _ _ _ _)
  | resolved r now body h => exact absurd rfl (h3 _ _ _ _)
  | move now body m => exact absurd rfl (h4 _ _ _ _)
  | _ => rfl

theorem failureHandler_row {E : Env} {hooks : TypeCode → TypeHooks σ} {D D' : Database σ}
    {r : RunnerId} {exc : Exc} {tb : String} {t : Task} (ht : D.tasks.get t.id = some t)
    (hk : retriesFailure exc t = false → ∃ D₁,
      (D.onFailure E hooks (.raised exc) t).result = .ok D₁ ∧ D₁.tasks.get t.id = some t)
    (h : (D.failureHandler E hooks r t.id exc tb).result = .ok D') :
    ((RowAct.failure r E.now exc tb (some t)).exec E.reg (false, some t)).map Prod.snd =
      .ok (D'.tasks.get t.id) := by
  -- what the handler writes is the row under its id
  have hrow : ∀ {D₁ : Database σ} {u : Task}, D₁.tasks.get t.id = some t →
      handleFailure E.reg E.now exc tb t t = .ok u →
      (D₁.tasks.update t.id fun _ => u).get t.id = some u := by
    intro D₁ u hu hf
    have hid : u.id = t.id := (handleFailure_landed hf).1
    rw [Table.get_update_self hu, ← hid]
  have hexec : ∀ {u : Task}, finalizable finalStates (some r) none t = true →
      handleFailure E.reg E.now exc tb t t = .ok u →
      ((RowAct.failure r E.now exc tb (some t)).exec E.reg (false, some t)).map Prod.snd =
        .ok (some u) := by
    intro u hf hu
    unfold RowAct.exec
    rw [if_pos (by exact hf)]
    show ((Except.map some (handleFailure E.reg E.now exc tb t t)).map _).map _ = _
    rw [hu]
    rfl
  have hskip : ¬ finalizable finalStates (some r) none t = true →
      ((RowAct.failure r E.now exc tb (some t)).exec E.reg (false, some t)).map Prod.snd =
        .ok (some t) := by
    intro hf
    unfold RowAct.exec
    rw [if_neg (by exact hf)]
    rfl
  unfold Database.failureHandler at h
  simp only [ht] at h
  by_cases hr : retriesFailure exc t = true
  · rw [if_pos hr] at h
    split_ifs at h with hf
    · obtain ⟨v, u, hv, hu, rfl, -⟩ := Database.modify_ok h
      obtain rfl := Option.some.inj (hv.symm.trans ht)
      rw [hexec hf hu, hrow ht hu]
    · obtain rfl := Except.ok.inj h
      rw [hskip hf, ht]
  · rw [if_neg hr] at h
    obtain ⟨D₁, h1, ht₁⟩ := hk (Bool.eq_false_iff.2 hr)
    rw [Run.andThen_of_ok h1, ht₁] at h
    have hfail : handleFailure E.reg E.now exc tb t t =
        GenericTaskQueue.actionFail E.now (some tb) none t := by
      unfold handleFailure
      rw [if_neg hr]
    split_ifs at h with hf
    · obtain ⟨v, u, hv, hu, rfl, -⟩ := Database.modify_ok h
      obtain rfl := Option.some.inj (hv.symm.trans ht₁)
      rw [hexec hf (hfail.trans hu), hrow ht₁ (hfail.trans hu)]
    · obtain rfl := Except.ok.inj h
      rw [hskip hf, ht₁]

end GenericTaskQueue
