import GenericBackground.BackgroundMigration.Migration
import GenericBackground.TaskQueue.FailureHooks
import GenericBackground.TaskQueue.Reattempt

/-!
# One migration, its tasks and their threads

The runs of a single migration: its record, every task ever enqueued for it, and the threads that
execute them. A step is a transaction that commits, or the progress of a thread. `execute()` works
on the snapshot that it took when phase 2 began; it commits only if the rows that it writes are
still those of the snapshot, and may fail at any time. A thread that has lost its task goes on.

Other tasks, the children of migrations among them, change as they like (`others`). What is proved
of all steps goes by cases on `Stepped`.
-/

namespace GenericBackgroundMigration

open GenericTaskQueue Traced Lts

/-- Where a task thread is. In phase 2 it holds the answers of its host, and the task and the record
of its snapshot. -/
inductive ThreadPhase where
  | spawned
  | started
  | executing (host : Host) (read : Task) (record : Option Migration)
  | failing (exc : Exc)
  | ended

structure TaskThread where
  task : TaskId
  phase : ThreadPhase := .spawned

/-- An attempt that has run `execute()`: what it asked its host, and the calls of `migrate()` it has
made. -/
structure Attempt where
  host : Host
  calls : List MigrateCall

/-- The system. `attempts` is history: the last attempt in which a task called
`action_wait_children`. -/
structure System where
  db : MigrationDb
  threads : RunnerId → Option TaskThread := fun _ => none
  attempts : TaskId → Option Attempt := fun _ => none

/-- What happens in a step. `ended` says how a hook ends that marks the record. -/
inductive Action where
  | schedule (uid : UserId)
  | forceReschedule (uid : UserId) (admin : Bool)
  | cancel (uid : UserId) (id : TaskId)
  | retry (id : TaskId) (eta : Option ℕ)
  | autoRetryFailed (id : TaskId)
  | claim (id : TaskId) (worker : WorkerId) (runner : RunnerId)
  | start (runner : RunnerId)
  | execute (runner : RunnerId) (host : Host)
  | progress (runner : RunnerId) (value : ℤ)
  | finish (runner : RunnerId) (migrate : MigrateRun) (ended : HookEnd)
  | abort (runner : RunnerId) (exc : Exc)
  | handleFailure (runner : RunnerId) (traceback : String) (ended : HookEnd)
  | die (runner : RunnerId)
  | stuck (runner : RunnerId)
  | recover (id : TaskId) (error : String) (ended : HookEnd)
  | resolvedStuck (runner : RunnerId) (ended : HookEnd)
  | check (id : TaskId) (doneEnded failureEnded : HookEnd)
  | others (tasks : Table)

/-- A step happens in a process, at some time. -/
structure Ev where
  env : Env
  act : Action

/-- The task `id`, if it is one of the migration. -/
def MigrationKey.task (k : MigrationKey) (T : Table) (id : TaskId) : Option Task :=
  (T.get id).filter k.owns

/-- Another active task has the key of `t`: the partial unique index fails a write of it. -/
def keyTaken (T : Table) (t : Task) : Bool :=
  t.uniqueKey.any fun a => T.rows.any fun u => u.id ≠ t.id ∧ activeKey u = some a

/-- The state that a transaction leaves, or that its rollback restores. -/
def settle (D : MigrationDb) (r : TxRun (Option Migration)) : MigrationDb :=
  match r.result with
  | .ok D' => D'
  | .error _ => D

/-- A statement on row `id`; an exception leaves it. -/
def settleRow (D : MigrationDb) (id : TaskId) (f : Task → Except TaskError Task) : MigrationDb :=
  settle D (D.modify [] id f)

/-- What phase 2 writes is as in its snapshot. -/
def unchanged (D : MigrationDb) (runner : RunnerId) (m : MigrateRun) (ended : HookEnd) (read : Task)
    (record : Option Migration) : Bool :=
  (!(m.waits || finalizable finalStates (some runner) none read) ||
    D.tasks.get read.id = some read) &&
  (m.waits || read.state = .waiting || !returns ended || D.others = record)

/-- The end of phase 2: the attempt, the task as it had read it, and what the commit leaves. -/
structure Finished where
  attempt : Attempt
  read : Task
  db : MigrationDb

namespace System

variable (k : MigrationKey)

def own (s : System) : TaskId → Option Task := k.task s.db.tasks

def setPhase (s : System) (runner : RunnerId) (task : TaskId) (phase : ThreadPhase) : System :=
  { s with threads := Function.update s.threads runner (some ⟨task, phase⟩) }

/-- Phase 2 of a thread, if `execute()` has returned so and it commits. -/
def finished (s : System) (E : Env) (runner : RunnerId) (m : MigrateRun) (ended : HookEnd) :
    Option Finished :=
  match s.threads runner with
  | some ⟨_, .executing host read record⟩ =>
    if (execute host k (.ok m)).result.toOption = some m ∧
        unchanged s.db runner m ended read record then
      (afterExecute E runner m ended read s.db).toOption.map fun D =>
        ⟨⟨host, (execute host k (.ok m)).events⟩, read, D⟩
    else none
  | _ => none

def leavesOwn (s : System) (T : Table) : Bool :=
  ((s.db.tasks.rows ++ T.rows).map Task.id).all fun id => k.task T id = s.own k id

/-- One step, in a process that has the task type registered. -/
def stepIn (s : System) (E : Env) : Action → Option System
  | .schedule uid => some { s with db := scheduleMigration E uid k s.db }
  | .forceReschedule uid admin => some { s with db := actionForceReschedule E uid admin k s.db }
  | .cancel uid id => match s.db.tasks.actionCancel (E.sees uid) E.now id with
    | .ok T => some { s with db := { s.db with tasks := T } }
    | .error _ => some s
  | .retry id eta => (s.own k id).map fun t =>
    if keyTaken s.db.tasks t then s else { s with db := settleRow s.db id (actionRetry eta) }
  | .autoRetryFailed id => (s.own k id).bind fun t =>
    if autoRetryable t then
      let eta := retryEta E.reg E.now t.typeCode t.retryCount
      some (if keyTaken s.db.tasks t then s else
        { s with db := settleRow s.db id (.ok ∘ actionAutoRetry eta) })
    else none
  | .claim id worker runner => (s.own k id).bind fun t =>
    if (s.threads runner).isNone ∧ t.state = .pending then
      some ({ s with db := settleRow s.db id (claimRow worker runner) }.setPhase runner id .spawned)
    else none
  | .start runner => match s.threads runner with
    | some ⟨id, .spawned⟩ => match (s.db.modify [] id (actionStart E.now)).result with
      | .ok D => some ({ s with db := D }.setPhase runner id .started)
      | .error _ => some (s.setPhase runner id .ended)
    | _ => none
  | .execute runner host => match s.threads runner with
    | some ⟨id, .started⟩ => (s.db.tasks.get id).map fun t =>
      s.setPhase runner id (.executing host t s.db.others)
    | _ => none
  | .progress runner value => match s.threads runner with
    | some ⟨id, .executing _ _ _⟩ =>
      some { s with db := settleRow s.db id (.ok ∘ setProgress value) }
    | _ => none
  | .finish runner m ended => (s.finished k E runner m ended).map fun f =>
    { s with db := f.db }.setPhase runner f.read.id .ended
  | .abort runner exc => match s.threads runner with
    | some ⟨id, .executing _ _ _⟩ => some (s.setPhase runner id (.failing exc))
    | _ => none
  | .handleFailure runner traceback ended => match s.threads runner with
    | some ⟨id, .failing exc⟩ => some ({ s with db := settle s.db (s.db.failureHandler E
        (fun _ => migrationHooks E.now .returned ended) runner id exc traceback) }.setPhase
          runner id .ended)
    | _ => none
  | .die runner => (s.threads runner).map fun th => s.setPhase runner th.task .ended
  | .stuck runner => match s.threads runner with
    | none => none
    | some ⟨_, .ended⟩ => none
    | some ⟨id, _⟩ => some { s with db := settleRow s.db id actionStuck }
  | .recover id error ended => (s.own k id).map fun _ =>
    { s with db := settle s.db (s.db.recoverOne E (fun _ => migrationHooks E.now .returned ended)
        error id) }
  | .resolvedStuck runner ended => match s.threads runner with
    | some ⟨id, .ended⟩ => some { s with db := settle s.db (s.db.resolvedStuckThread E
        (fun _ => migrationHooks E.now .returned ended) runner id) }
    | _ => none
  | .check id doneEnded failureEnded => (s.own k id).map fun _ =>
    { s with db := settle s.db (s.db.checkWaitingParent E
        (fun _ => migrationHooks E.now doneEnded failureEnded) id) }
  | .others T => if s.leavesOwn k T then some { s with db := { s.db with tasks := T } } else none

/-- The attempts in which tasks have come to wait. -/
def attemptsAfter (s : System) (ev : Ev) : TaskId → Option Attempt :=
  match ev.act with
  | .finish runner m ended => match s.finished k ev.env runner m ended with
    | some f =>
      if m.waits then Function.update s.attempts f.read.id (some f.attempt) else s.attempts
    | none => s.attempts
  | _ => s.attempts

def step (s : System) (ev : Ev) : Option System :=
  if ev.env.reg.lookup typeCode = some migrationTaskType then
    (s.stepIn k ev.env ev.act).map fun s' => { s' with attempts := s.attemptsAfter k ev }
  else none

/-- The states from which runs start: the migration has not been found yet. -/
structure Start (s : System) : Prop where
  no_record : s.db.others = none
  no_task : ∀ t ∈ s.db.tasks.rows, k.owns t = false
  no_thread : ∀ r, s.threads r = none

end System

/-! ## What a step makes of the system -/

section Stepped

variable {k : MigrationKey} {s s' : System} {ev : Ev} {E : Env} {T : Table}

theorem MigrationKey.task_none {id : TaskId} (h : T.get id = none) : k.task T id = none := by
  unfold task; rw [h]; rfl

theorem leavesOwn_iff : s.leavesOwn k T = true ↔ k.task T = s.own k := by
  unfold System.leavesOwn
  rw [List.all_eq_true]
  constructor
  · intro h
    funext j
    by_cases hj : j ∈ (s.db.tasks.rows ++ T.rows).map Task.id
    · simpa using h j hj
    · -- no row has this id
      have hnone : ∀ {T' : Table}, (∀ t ∈ T'.rows, t ∈ s.db.tasks.rows ++ T.rows) →
          k.task T' j = none := fun hsub => MigrationKey.task_none
        (Table.get_none_iff.2 fun t ht he => hj (List.mem_map.2 ⟨t, hsub t ht, he⟩))
      rw [hnone fun t ht => List.mem_append_right _ ht]
      exact (hnone fun t ht => List.mem_append_left _ ht).symm
  · intro h j _
    rw [h]
    simp

/-- What a step makes of the system. A step that finds its transition refused leaves it. -/
inductive Stepped (k : MigrationKey) (s : System) (E : Env) : Action → System → Prop
  | refused {a : Action} : Stepped k s E a s
  | schedule {uid : UserId} :
      Stepped k s E (.schedule uid) { s with db := scheduleMigration E uid k s.db }
  | forceReschedule {uid : UserId} {admin : Bool} :
      Stepped k s E (.forceReschedule uid admin)
        { s with db := actionForceReschedule E uid admin k s.db }
  | cancel {uid : UserId} {id : TaskId} {T : Table}
      (hT : s.db.tasks.actionCancel (E.sees uid) E.now id = .ok T) :
      Stepped k s E (.cancel uid id) { s with db := { s.db with tasks := T } }
  | retry {id : TaskId} {eta : Option ℕ} {t : Task} (ht : s.own k id = some t)
      (hk : keyTaken s.db.tasks t = false) :
      Stepped k s E (.retry id eta) { s with db := settleRow s.db id (actionRetry eta) }
  | autoRetryFailed {id : TaskId} {t : Task} (ht : s.own k id = some t)
      (hr : autoRetryable t = true) :
      Stepped k s E (.autoRetryFailed id)
        { s with db := settleRow s.db id (.ok ∘ actionAutoRetry
            (retryEta E.reg E.now t.typeCode t.retryCount)) }
  | claim {id : TaskId} {worker : WorkerId} {runner : RunnerId} {t : Task}
      (ht : s.own k id = some t) : Stepped k s E (.claim id worker runner)
        ({ s with db := settleRow s.db id (claimRow worker runner) }.setPhase runner id .spawned)
  | start {runner : RunnerId} {id : TaskId} (hth : s.threads runner = some ⟨id, .spawned⟩) :
      Stepped k s E (.start runner)
        ({ s with db := settleRow s.db id (actionStart E.now) }.setPhase runner id .started)
  | startRefused {runner : RunnerId} {id : TaskId}
      (hth : s.threads runner = some ⟨id, .spawned⟩) :
      Stepped k s E (.start runner) (s.setPhase runner id .ended)
  | execute {runner : RunnerId} {host : Host} {id : TaskId} {t : Task}
      (hth : s.threads runner = some ⟨id, .started⟩) (ht : s.db.tasks.get id = some t) :
      Stepped k s E (.execute runner host)
        (s.setPhase runner id (.executing host t s.db.others))
  | progress {runner : RunnerId} {value : ℤ} {id : TaskId} :
      Stepped k s E (.progress runner value)
        { s with db := settleRow s.db id (.ok ∘ setProgress value) }
  | finish {runner : RunnerId} {m : MigrateRun} {ended : HookEnd} {x : Finished}
      (hx : s.finished k E runner m ended = some x) : Stepped k s E (.finish runner m ended)
        ({ s with db := x.db }.setPhase runner x.read.id .ended)
  | abort {runner : RunnerId} {exc : Exc} {id : TaskId} {phase : ThreadPhase}
      (hth : s.threads runner = some ⟨id, phase⟩) :
      Stepped k s E (.abort runner exc) (s.setPhase runner id (.failing exc))
  | handleFailure {runner : RunnerId} {traceback : String} {ended : HookEnd} {id : TaskId}
      {exc : Exc} (hth : s.threads runner = some ⟨id, .failing exc⟩) :
      Stepped k s E (.handleFailure runner traceback ended)
        ({ s with db := settle s.db (s.db.failureHandler E
          (fun _ => migrationHooks E.now .returned ended) runner id exc traceback) }.setPhase
            runner id .ended)
  | die {runner : RunnerId} {th : TaskThread} (hth : s.threads runner = some th) :
      Stepped k s E (.die runner) (s.setPhase runner th.task .ended)
  | stuck {runner : RunnerId} {id : TaskId} :
      Stepped k s E (.stuck runner) { s with db := settleRow s.db id actionStuck }
  | recover {id : TaskId} {error : String} {ended : HookEnd} {t : Task}
      (ht : s.own k id = some t) : Stepped k s E (.recover id error ended)
        { s with db := settle s.db (s.db.recoverOne E
          (fun _ => migrationHooks E.now .returned ended) error id) }
  | resolvedStuck {runner : RunnerId} {ended : HookEnd} {id : TaskId}
      (hth : s.threads runner = some ⟨id, .ended⟩) :
      Stepped k s E (.resolvedStuck runner ended)
        { s with db := settle s.db (s.db.resolvedStuckThread E
          (fun _ => migrationHooks E.now .returned ended) runner id) }
  | check {id : TaskId} {d f : HookEnd} {t : Task} (ht : s.own k id = some t) :
      Stepped k s E (.check id d f)
        { s with db := settle s.db (s.db.checkWaitingParent E
          (fun _ => migrationHooks E.now d f) id) }
  | others {T : Table} (hT : k.task T = s.own k) :
      Stepped k s E (.others T) { s with db := { s.db with tasks := T } }

/-- The only place that goes through the branches of a step. -/
theorem stepIn_spec {a : Action} (h : s.stepIn k E a = some s') : Stepped k s E a s' := by
  unfold System.stepIn at h
  cases a with
  | schedule uid => exact Option.some.inj h ▸ .schedule
  | forceReschedule uid admin => exact Option.some.inj h ▸ .forceReschedule
  | cancel uid id =>
    dsimp only at h
    split at h
    · next T hT => exact Option.some.inj h ▸ .cancel hT
    · exact Option.some.inj h ▸ .refused
  | retry id eta =>
    obtain ⟨t, ht, rfl⟩ := Option.map_eq_some_iff.1 h
    split_ifs with hk
    · exact .refused
    · exact .retry ht (by simpa using hk)
  | autoRetryFailed id =>
    obtain ⟨t, ht, h⟩ := Option.bind_eq_some_iff.1 h
    split_ifs at h with hr hk
    · exact Option.some.inj h ▸ .refused
    · exact Option.some.inj h ▸ .autoRetryFailed ht hr
  | claim id worker runner =>
    obtain ⟨t, ht, h⟩ := Option.bind_eq_some_iff.1 h
    split_ifs at h
    exact Option.some.inj h ▸ .claim ht
  | start runner =>
    dsimp only at h
    split at h
    · next id hth =>
      split at h
      · next D hD =>
        have hset : D = settleRow s.db id (actionStart E.now) := by
          unfold settleRow settle; rw [hD]
        subst hset
        exact Option.some.inj h ▸ .start hth
      · exact Option.some.inj h ▸ .startRefused hth
    · cases h
  | execute runner host =>
    dsimp only at h
    split at h
    · next id hth =>
      obtain ⟨t, ht, rfl⟩ := Option.map_eq_some_iff.1 h
      exact .execute hth ht
    · cases h
  | progress runner value =>
    dsimp only at h
    split at h
    · exact Option.some.inj h ▸ .progress
    · cases h
  | finish runner m ended =>
    obtain ⟨x, hx, rfl⟩ := Option.map_eq_some_iff.1 h
    exact .finish hx
  | abort runner exc =>
    dsimp only at h
    split at h
    · next hth => exact Option.some.inj h ▸ .abort hth
    · cases h
  | handleFailure runner traceback ended =>
    dsimp only at h
    split at h
    · next hth => exact Option.some.inj h ▸ .handleFailure hth
    · cases h
  | die runner =>
    obtain ⟨th, hth, rfl⟩ := Option.map_eq_some_iff.1 h
    exact .die hth
  | stuck runner =>
    dsimp only at h
    split at h
    · cases h
    · cases h
    · exact Option.some.inj h ▸ .stuck
  | recover id error ended =>
    obtain ⟨t, ht, rfl⟩ := Option.map_eq_some_iff.1 h
    exact .recover ht
  | resolvedStuck runner ended =>
    dsimp only at h
    split at h
    · next hth => exact Option.some.inj h ▸ .resolvedStuck hth
    · cases h
  | check id d f =>
    obtain ⟨t, ht, rfl⟩ := Option.map_eq_some_iff.1 h
    exact .check ht
  | others T =>
    dsimp only at h
    split_ifs at h with hT
    exact Option.some.inj h ▸ .others (leavesOwn_iff.1 hT)

theorem step_in (h : s.step k ev = some s') :
    ev.env.reg.lookup typeCode = some migrationTaskType ∧ ∃ s₁,
      s.stepIn k ev.env ev.act = some s₁ ∧ s' = { s₁ with attempts := s.attemptsAfter k ev } := by
  unfold System.step at h
  split_ifs at h with hE
  obtain ⟨s₁, h1, rfl⟩ := Option.map_eq_some_iff.1 h
  exact ⟨hE, s₁, h1, rfl⟩

end Stepped

def recomputeTotals : MigrationKey := ⟨"sales", "18.0.1.2.3", "recompute-totals"⟩

def salesEnv (now : ℕ) : Env := ⟨[(typeCode, migrationTaskType)], [typeCode, "recompute"], now, []⟩

def salesHost : Host where
  isDigit := Char.isDigit
  repr s := "'" ++ s ++ "'"
  getModulePath m := if m = "sales" then some "/addons/sales" else none
  isFile _ := true
  load _ := .ok true

/-- The database before the upgrade that brings the migration. -/
def beforeUpgrade : System where
  db := ⟨⟨[], by simp⟩, none⟩

theorem beforeUpgrade_start : System.Start recomputeTotals beforeUpgrade where
  no_record := rfl
  no_task _ ht := absurd ht List.not_mem_nil
  no_thread _ := rfl

def at100 (as : List Action) : List Ev := as.map fun a => ⟨salesEnv 100, a⟩

end GenericBackgroundMigration
