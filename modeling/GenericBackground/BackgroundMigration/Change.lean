import GenericBackground.BackgroundMigration.System

/-!
# What a step may change

The tasks of the migration in a table, and what a step may change among them and in the record
(`Change`). A change names the move of the task or the hook that it comes from.
-/

namespace GenericBackgroundMigration

open GenericTaskQueue Traced Lts

variable {k : MigrationKey} {T : Table} {id : TaskId} {t t' : Task}

/-! ## The tasks of the migration in a table -/

/-- What no step writes. -/
structure Static (t t' : Task) : Prop where
  id : t'.id = t.id
  typeCode : t'.typeCode = t.typeCode
  taskParams : t'.taskParams = t.taskParams
  uniqueKey : t'.uniqueKey = t.uniqueKey
  parentId : t'.parentId = t.parentId
  retryPolicy : t'.retryPolicy = t.retryPolicy

@[simp] theorem Static.refl (t : Task) : Static t t := ⟨rfl, rfl, rfl, rfl, rfl, rfl⟩

theorem Static.owns (h : Static t t') : k.owns t' = k.owns t := by
  simp only [MigrationKey.owns, h.typeCode, h.taskParams, h.uniqueKey]

namespace MigrationKey

theorem task_eq_some : k.task T id = some t ↔ T.get id = some t ∧ k.owns t = true :=
  Option.filter_eq_some_iff

theorem task_id (h : k.task T id = some t) : t.id = id :=
  (Table.get_eq_some_iff.1 (task_eq_some.1 h).1).2

theorem task_updateAll {ids : List TaskId} {f : Task → Task}
    (hs : ∀ t, T.get t.id = some t → t.id ∈ ids → Static t { f t with id := t.id }) (j : TaskId) :
    k.task (T.updateAll ids f) j =
      (k.task T j).map fun t => if j ∈ ids then { f t with id := j } else t := by
  unfold task
  rw [Table.get_updateAll]
  rcases hj : T.get j with _ | t
  · rfl
  · obtain ⟨-, rfl⟩ := Table.get_eq_some_iff.1 hj
    rw [Option.map_some]
    split_ifs with hmem
    · have ho := (hs t hj hmem).owns (k := k)
      rw [Option.filter_some, Option.filter_some, ho]
      split_ifs <;> rfl
    · simp

theorem task_update (ht : T.get t.id = some t) (hs : Static t t') :
    k.task (T.update t.id fun _ => t') =
      if k.owns t then Function.update (k.task T) t.id (some t') else k.task T := by
  have hself : { t' with id := t.id } = t' := by rw [← hs.id]
  have hst : ∀ u, T.get u.id = some u → u.id ∈ [t.id] → Static u { t' with id := u.id } := by
    intro u hu hmem
    rw [List.mem_singleton] at hmem
    rw [hmem, ht] at hu
    obtain rfl := Option.some.inj hu
    rwa [hself]
  funext j
  show k.task (T.updateAll [t.id] fun _ => t') j = _
  rw [task_updateAll hst]
  by_cases hj : j = t.id
  · subst hj
    have htask : k.task T t.id = if k.owns t then some t else none := by
      unfold task; rw [ht, Option.filter_some]
    by_cases ho : k.owns t = true
    · rw [htask, if_pos ho, if_pos ho, Function.update_self, Option.map_some,
        if_pos (List.mem_singleton_self _), hself]
    · rw [if_neg ho, htask, if_neg ho, Option.map_none]
  · have hmem : j ∉ [t.id] := by simpa using hj
    simp only [if_neg hmem, Option.map_id']
    split_ifs
    · rw [Function.update_of_ne hj]
    · rfl

theorem task_update_own (ht : k.task T id = some t) (hs : Static t t') :
    k.task (T.update id fun _ => t') = Function.update (k.task T) id (some t') := by
  obtain rfl := task_id ht
  obtain ⟨hg, ho⟩ := task_eq_some.1 ht
  rw [task_update hg hs, if_pos ho]

theorem get_insert_cases (T : Table) (new : List Task) (j : TaskId) :
    (T.insert new).get j = T.get j ∨ T.get j = none ∧ ∃ p ∈ new.zipIdx, j = T.nextId + p.2 ∧
      (T.insert new).get j = some { p.1 with id := j } := by
  rcases hg : T.get j with _ | t
  · rcases hi : (T.insert new).get j with _ | t
    · exact .inl rfl
    · obtain ⟨hm, rfl⟩ := Table.get_eq_some_iff.1 hi
      rcases Table.mem_insert.1 hm with hm | ⟨p, hp, rfl⟩
      · exact absurd rfl (Table.get_none_iff.1 hg _ hm)
      · exact .inr ⟨rfl, p, hp, rfl, rfl⟩
  · exact .inl (Table.get_insert hg)

theorem task_insert {new : List Task} (h : ∀ t ∈ new, k.owns t = false) :
    k.task (T.insert new) = k.task T := by
  funext j
  unfold task
  rcases get_insert_cases T new j with hg | ⟨hn, p, hp, -, hg⟩
  · rw [hg]
  · have ho : k.owns { p.1 with id := j } = false := h p.1 (List.fst_mem_of_mem_zipIdx hp)
    rw [hn, hg, Option.filter_some, ho]
    rfl

theorem get_nextId (T : Table) : T.get T.nextId = none :=
  Table.get_none_iff.2 fun _ ht he => absurd (Table.lt_nextId ht) (by rw [he]; exact lt_irrefl _)

theorem task_insert_own (ho : k.owns t = true) :
    k.task (T.insert [t]) =
      Function.update (k.task T) T.nextId (some { t with id := T.nextId }) := by
  funext j
  by_cases hj : j = T.nextId
  · subst hj
    rw [Function.update_self]
    exact task_eq_some.2 ⟨Table.get_eq_some_iff.2
      ⟨Table.mem_insert.2 (.inr ⟨(t, 0), by simp, rfl⟩), rfl⟩, ho⟩
  · rw [Function.update_of_ne hj]
    unfold task
    rcases get_insert_cases T [t] j with hg | ⟨-, p, hp, rfl, -⟩
    · rw [hg]
    · obtain rfl : p = (t, 0) := by simpa using hp
      exact absurd rfl hj

end MigrationKey

/-! ## What a step may change -/

/-- The task runs the migration. -/
def RowOk (k : MigrationKey) (t : Task) : Prop := t.typeCode = typeCode ∧ t.taskParams = k.params

/-- The task is as `_enqueue_task` has made it, in what no step writes. -/
structure Enqueued (k : MigrationKey) (t : Task) : Prop where
  ok : RowOk k t
  uniqueKey : t.uniqueKey = some k.uniqueKey
  parentId : t.parentId = none
  retryPolicy : t.retryPolicy = .retryKnown

theorem RowOk.owns (h : RowOk k t) : k.owns t = true := by
  unfold MigrationKey.owns
  simp [h.1, h.2]

theorem RowOk.static (h : RowOk k t) (hs : Static t t') : RowOk k t' :=
  ⟨hs.typeCode.trans h.1, hs.taskParams.trans h.2⟩

theorem Enqueued.static (h : Enqueued k t) (hs : Static t t') : Enqueued k t' :=
  ⟨h.ok.static hs, hs.uniqueKey.trans h.uniqueKey, hs.parentId.trans h.parentId,
    hs.retryPolicy.trans h.retryPolicy⟩

abbrev Tasks := TaskId → Option Task

theorem update_eq_some {ι α : Type} [DecidableEq ι] {f : ι → Option α} {i j : ι} {a b : α} :
    Function.update f i (some a) j = some b ↔ j = i ∧ a = b ∨ j ≠ i ∧ f j = some b := by
  rw [Function.update_apply]
  split_ifs with h <;> simp [h]

/-- The tasks of the migration before and after `migrate()` has spawned some. -/
def Grown (k : MigrationKey) (V V' : Tasks) : Prop :=
  ∀ j, V' j = V j ∨ V j = none ∧ ∃ t, V' j = some t ∧ RowOk k t ∧ t.state = .pending

theorem Grown.refl (k : MigrationKey) (V : Tasks) : Grown k V V := fun _ => .inl rfl

/-- The task spawned runs the migration as well. -/
def RunsIt (k : MigrationKey) (spec : TaskSpec) : Prop :=
  spec.typeCode = typeCode ∧ spec.params.getD (.text "{}") = k.params

def Apart (k : MigrationKey) (a : Action) : Prop :=
  ∀ runner m ended, a = .finish runner m ended → ∀ spec ∈ m.spawns, ¬ RunsIt k spec

/-- The record marked by a hook, if its write is kept. -/
def marked (now : ℕ) (state : MigrationState) (ended : HookEnd) (r : Option Migration) :
    Option Migration :=
  if returns ended then r.map fun r => { r with state := state, dateCompleted := some now } else r

/-- The record `r` is that of `o`, set to pending; or it is new. -/
structure Prepared (k : MigrationKey) (o : Option Migration) (r : Migration) : Prop where
  state : r.state = .pending
  key : r.key = k
  taskId : o = none ∧ r.taskId = none ∨ ∃ r₀, o = some r₀ ∧ r₀.state ≠ .done ∧ r.taskId = r₀.taskId

/-- The execution is lost, and is not to be tried again. -/
def LostForGood (t : Task) : Bool :=
  t.state ∈ inFlightStates && t.state ≠ .assigned && !retriableLoss t

/-- The state of a task whose migration is marked so. -/
def MigrationState.final : MigrationState → TaskState
  | .pending => .pending
  | .done => .done
  | .failed => .failed

section Changes

variable (k : MigrationKey) (s : System) (ev : Ev)

/-- A step that moves the task `t` and leaves the record. -/
inductive Moves (t t' : Task) : Prop
  | kept (h : t'.state = t.state)
  | active (h : t.state ∈ activeStates) (h' : t'.state ∈ activeStates)
      (hw : t'.state = .waiting → t.state = .waiting ∨ ∃ runner m ended f,
        ev.act = .finish runner m ended ∧ s.finished k ev.env runner m ended = some f ∧
          m.waits = true ∧ f.read.id = t.id)
  | retried {eta : Option ℕ} (ha : ev.act = .retry t.id eta) (h : t.state = .failed)
      (h' : t'.state = .pending) (hk : keyTaken s.db.tasks t = false)
  | autoRetried (ha : ev.act = .autoRetryFailed t.id) (h : t.retryPolicy = .retryAny)
      (h' : t'.state = .pending)
  | childless {d f : HookEnd} (ha : ev.act = .check t.id d f) (h : t.state = .waiting)
      (hc : s.db.tasks.children t.id = []) (h' : t'.state = .done)

/-- A step that settles the task `t`, after a hook that marks the record. -/
inductive Settles : Task → MigrationState → HookEnd → Prop
  | finish {runner : RunnerId} {m : MigrateRun} {ended : HookEnd} {f : Finished}
      (ha : ev.act = .finish runner m ended) (hf : s.finished k ev.env runner m ended = some f)
      (hm : m.waits = false) (hw : f.read.state ≠ .waiting)
      (ho : finalizable finalStates (some runner) none f.read = true) : Settles f.read .done ended
  | handle {runner : RunnerId} {traceback : String} {ended : HookEnd} {exc : Exc} {t : Task}
      (ha : ev.act = .handleFailure runner traceback ended)
      (hth : s.threads runner = some ⟨t.id, .failing exc⟩) (hr : retriesFailure exc t = false)
      (ho : finalizable finalStates (some runner) none t = true) : Settles t .failed ended
  | recover {error : String} {ended : HookEnd} {t : Task} (ha : ev.act = .recover t.id error ended)
      (hr : LostForGood t = true) : Settles t .failed ended
  | resolvedStuck {runner : RunnerId} {ended : HookEnd} {t : Task}
      (ha : ev.act = .resolvedStuck runner ended) (hth : s.threads runner = some ⟨t.id, .ended⟩)
      (hr : LostForGood t = true) : Settles t .failed ended
  | childrenDone {d f : HookEnd} {t : Task} {v : Option Json} (ha : ev.act = .check t.id d f)
      (hw : t.state = .waiting) (hc : s.db.tasks.children t.id ≠ [])
      (hq : ∀ c ∈ s.db.tasks.children t.id, c.state ∉ activeStates)
      (he : .onAllChildrenDone t.id (.ok v) ∈ (s.db.checkWaitingParent ev.env
        (fun _ => migrationHooks ev.env.now d f) t.id).events) : Settles t .done d
  | childrenFailed {d f : HookEnd} {t : Task} (ha : ev.act = .check t.id d f)
      (hw : t.state = .waiting) (hc : s.db.tasks.children t.id ≠ [])
      (hq : ∀ c ∈ s.db.tasks.children t.id, c.state ∉ activeStates) : Settles t .failed f

/-- A hook that marks the record for a thread that does not own its task any more. -/
inductive Disowned : MigrationState → HookEnd → Prop
  | finish {runner : RunnerId} {m : MigrateRun} {ended : HookEnd} {f : Finished}
      (ha : ev.act = .finish runner m ended) (hf : s.finished k ev.env runner m ended = some f)
      (hm : m.waits = false) (hw : f.read.state ≠ .waiting)
      (ho : finalizable finalStates (some runner) none f.read = false) : Disowned .done ended
  | handle {runner : RunnerId} {traceback : String} {ended : HookEnd} {exc : Exc} {t : Task}
      (ha : ev.act = .handleFailure runner traceback ended)
      (hth : s.threads runner = some ⟨t.id, .failing exc⟩) (ht : s.own k t.id = some t)
      (hr : retriesFailure exc t = false)
      (ho : finalizable finalStates (some runner) none t = false) : Disowned .failed ended

/-- What a step changes among the tasks `V` of the migration, and in its record. -/
inductive Change (V : Tasks) : Tasks → Option Migration → Prop
  | same : Change V V s.db.others
  | enqueued {r : Migration} {t : Task} (hr : Prepared k s.db.others r) (hid : V t.id = none)
      (hfree : ∀ j u, V j = some u → activeKey u ≠ some k.uniqueKey) (ht : Enqueued k t)
      (hp : t.state = .pending) :
      Change V (Function.update V t.id (some t)) (some { r with taskId := some t.id })
  | reused {r : Migration} {t : Task} (hr : Prepared k s.db.others r) (ht : V t.id = some t)
      (ha : t.state ∈ activeStates) : Change V V (some { r with taskId := some t.id })
  | stranded {r : Migration} {uid : UserId} (hr : Prepared k s.db.others r)
      (ha : ev.act = .schedule uid) (hty : typeCode ∉ ev.env.activeTypes) : Change V V (some r)
  | cancelled {uid : UserId} {id : TaskId} {V' : Tasks} (ha : ev.act = .cancel uid id)
      (hc : ∀ t, V id = some t → .cancelled ∈ allowedTransitions t.state)
      (hV : ∀ j, V' j = V j ∨ ∃ t t', V j = some t ∧ V' j = some t' ∧ Static t t' ∧
        t'.state = .cancelled ∧ (j ≠ id → t.parentId ≠ none)) : Change V V' s.db.others
  | moved {t t' : Task} (ht : V t.id = some t) (hs : Static t t') (hm : Moves k s ev t t') :
      Change V (Function.update V t.id (some t')) s.db.others
  | hooked {t t' : Task} {state : MigrationState} {ended : HookEnd} (ht : V t.id = some t)
      (hs : Static t t') (ha : t.state ∈ activeStates) (hst : t'.state = state.final)
      (hb : Settles k s ev t state ended) :
      Change V (Function.update V t.id (some t')) (marked ev.env.now state ended s.db.others)
  | disowned {state : MigrationState} {ended : HookEnd} (hb : Disowned k s ev state ended) :
      Change V V (marked ev.env.now state ended s.db.others)

/-- What holds of the tasks, threads and record of the migration in every reachable state. -/
structure Wf : Prop where
  rows : ∀ j t, s.own k j = some t → RowOk k t
  threads : ∀ r th, s.threads r = some th → ∃ t, s.own k th.task = some t
  reads : ∀ r id host read record, s.threads r = some ⟨id, .executing host read record⟩ →
    RowOk k read ∧ read.id = id
  record : ∀ r, s.db.others = some r → r.key = k

end Changes

end GenericBackgroundMigration
