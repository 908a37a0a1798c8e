import GenericBackground.TaskQueue.Table
import Mathlib.Logic.Function.Iterate

/-!
# Children and waiting parents

`create_children`, the hooks of a task type, and `_check_waiting_parent`: a parent in `waiting` is
completed, failed or left alone according to the states of its children and to what its
`on_all_children_done` does. A hook is given by what one call of it does (`HookRun`): the children
it spawns, the final action it calls on the parent, and how it ends. What the states of the children
decide holds for any hook, and is proved for `checkWaitingParentWith`.

`checkWaitingParents` is one cycle of the worker's poll: the first ten waiting tasks, each in a
transaction of its own.
-/

namespace GenericTaskQueue

open Query

/-! ## Spawning children -/

structure TaskSpec where
  typeCode : TypeCode
  params : Option Json := none
  name : Option String := none
  channel : Option Channel := none
  priority : Option ℤ := none
  eta : Option ℕ := none
  timeout : Option ℤ := none
  retryPolicy : Option RetryPolicyName := none
  maxRetries : Option ℤ := none
  deriving DecidableEq, Repr

/-- What the queue reads besides its own table: the registered task types, the codes of the active
task type records, the clock, and who manages the queue or is the superuser. -/
structure Env where
  reg : Registry
  activeTypes : List TypeCode
  now : ℕ
  managers : List UserId := []
  deriving DecidableEq, Repr

/-- The record rules: a manager reads every task, another user those that he has created. -/
def Env.sees (E : Env) (uid : UserId) (t : Task) : Bool := uid ∈ E.managers ∨ t.createUid = uid

/-- The values of the `i`-th of `total` children. The retry settings fall back to the type's, the
channel to the parent's. -/
def childVals (E : Env) (parent : Task) (total i : ℕ) (spec : TaskSpec) : TaskVals where
  id := 0
  name := spec.name.getD
    (parent.name ++ " [" ++ toString (i + 1) ++ "/" ++ toString total ++ "]")
  typeCode := spec.typeCode
  channel := spec.channel.getD parent.channel
  priority := spec.priority.getD 5
  taskParams := spec.params.getD (.text "{}")
  eta := spec.eta
  retryPolicy := normalizeRetryPolicy
    ((spec.retryPolicy.orElse fun _ => (E.reg.lookup spec.typeCode).map TaskType.retryPolicy).getD
      (.canonical .noRetry))
  maxRetries := (spec.maxRetries.orElse fun _ =>
    (E.reg.lookup spec.typeCode).map TaskType.maxRetries).getD 0
  timeout := spec.timeout.getD 0
  parentId := some parent.id
  dateCreated := E.now
  createUid := parent.createUid

/-- `create_children`; the ids are those of the inserted rows. -/
def createChildren (E : Env) (parent : Task) (specs : List TaskSpec) (T : Table) :
    Except TaskError Table :=
  match specs.find? (·.typeCode ∉ E.activeTypes) with
  | some spec => .error (.validationError ("Unknown task type '" ++ spec.typeCode ++ "'."))
  | none => .ok (T.insert (specs.zipIdx.map fun p =>
      (childVals E parent specs.length p.2 p.1).create))

/-! ## Hooks -/

/-- A final action that a hook calls on its own task. -/
inductive ParentMove where
  | done (result : Option Json)
  | fail (error : Option String)
  | cancel
  deriving DecidableEq, Repr

/-- What one call of a hook does: the children it spawns, the action it calls on its task, and its
return value or the exception it raises. -/
structure HookRun where
  spawns : List TaskSpec := []
  move : Option ParentMove := none
  outcome : Except Exc (Option Json) := .ok none
  deriving DecidableEq

/-- The hooks of the tasks, in one cycle. -/
structure Hooks where
  onAllChildrenDone : TaskId → HookRun
  onFailure : TaskId → HookRun

/-- What `on_failure` is told. -/
inductive FailureCause where
  | raised (exc : Exc)
  | childTasksFailedError (names : List String)
  | taskAbandonedError (error : String)
  deriving DecidableEq, Repr

inductive HookCall where
  | onAllChildrenDone (id : TaskId)
  | onFailure (id : TaskId) (cause : FailureCause)
  deriving DecidableEq, Repr

/-- `sees` is what the hook may read. -/
def ParentMove.apply (sees : Task → Bool) (now : ℕ) (id : TaskId) (T : Table) :
    ParentMove → Except TaskError Table
  | .done result => T.modify id (actionDone now result)
  | .fail error => T.modify id (actionFail now error none)
  | .cancel => T.actionCancel sees now id

/-- What the hook does to the table, as the creator of the task. -/
def HookRun.effects (E : Env) (h : HookRun) (p : Task) (T : Table) : Except TaskError Table := do
  let T' ← createChildren E p h.spawns T
  match h.move with
  | none => return T'
  | some move => move.apply (E.sees p.createUid) E.now p.id T'

/-- `_run_task_type_hook` in its savepoint: a task type that is not registered has no hooks; a hook
that raises leaves the table as it was. -/
def runTaskTypeHook (E : Env) (h : HookRun) (p : Task) (T : Table) :
    Table × Except Exc (Option Json) :=
  if (E.reg.lookup p.typeCode).isNone then (T, .ok none)
  else match h.effects E p T, h.outcome with
    | .error (.validationError msg), _ => (T, .error (.other msg))
    | .ok _, .error exc => (T, .error exc)
    | .ok T', .ok v => (T', .ok v)

/-! ## The check of a waiting parent -/

/-- A failed child that no automatic retry will pick up. -/
def nonRetriable (t : Task) : Bool :=
  t.state = .failed && (t.retryPolicy ≠ .retryAny || t.maxRetries ≤ t.retryCount)

/-- `on_failure`, whose errors are logged only, then `action_fail`. -/
def failParent (E : Env) (hooks : Hooks) (cause : FailureCause) (msg : String) (p : Task)
    (T : Table) : Except Exc (Table × List HookCall) :=
  match (runTaskTypeHook E (hooks.onFailure p.id) p T).1.modify p.id
      (actionFail E.now (some msg) none) with
  | .ok T' => .ok (T', [.onFailure p.id cause])
  | .error (.validationError e) => .error (.other e)

/-- The end of `_check_waiting_parent`, once every child is done or cancelled. -/
def completeParent (E : Env) (hooks : Hooks) (p : Task) (T : Table) :
    Except Exc (Table × List HookCall) :=
  let calls := [.onAllChildrenDone p.id]
  match runTaskTypeHook E (hooks.onAllChildrenDone p.id) p T with
  | (_, .error .transientError) => .error .transientError
  | (_, .error (.retryTask _)) => .ok (T, calls)
  | (_, .error (.other text)) =>
    (failParent E hooks (.raised (.other text)) ("on_all_children_done failed: " ++ text) p T).map
      fun r => (r.1, calls ++ r.2)
  | (T', .ok v) =>
    if (T'.get p.id).map Task.state ≠ some .waiting then .ok (T', calls)
    else if (T'.children p.id).any (·.state ∈ activeStates) then .ok (T', calls)
    else match T'.modify p.id (actionDone E.now v) with
      | .ok T'' => .ok (T'', calls)
      | .error (.validationError e) => .error (.other e)

/-- `_check_waiting_parent`. An exception rolls the transaction back. -/
def checkWaitingParent (E : Env) (hooks : Hooks) (id : TaskId) (T : Table) :
    Except Exc (Table × List HookCall) :=
  match T.get id with
  | none => .ok (T, [])
  | some p =>
    if p.state ≠ .waiting then .ok (T, [])
    else if T.children id = [] then
      match T.modify id (actionDone E.now none) with
      | .ok T' => .ok (T', [])
      | .error (.validationError e) => .error (.other e)
    else if (T.children id).any (·.state ∈ activeStates) then .ok (T, [])
    else if (T.children id).any nonRetriable then
      let names := ((T.children id).filter nonRetriable).map Task.name
      failParent E hooks (.childTasksFailedError names)
        ("Child tasks failed: " ++ ", ".intercalate names) p T
    else if (T.children id).any (·.state = .failed) then .ok (T, [])
    else completeParent E hooks p T

def afterCheck (E : Env) (hooks : Hooks) (T : Table) (id : TaskId) : Table :=
  match checkWaitingParent E hooks id T with
  | .ok r => r.1
  | .error _ => T

/-- The waiting tasks that a cycle looks at: `search([('state', '=', 'waiting')], limit=10)`. -/
def waitingIds (T : Table) : List TaskId :=
  ((select keyLE (·.state = .waiting) T.rows).take 10).map Task.id

def checkWaitingParents (E : Env) (hooks : Hooks) (T : Table) : Table :=
  (waitingIds T).foldl (afterCheck E hooks) T

/-! ## The check, for any hook -/

/-- What a hook of the parent does in its savepoint: the table that it leaves, its return value and
what else is recorded of it, or the exception that it raises. -/
abbrev Hook (γ : Type) := Task → Table → Except Exc (Table × Option Json × γ)

section Check

variable {γ : Type}

/-- `completeParent` with any `on_all_children_done`; its record is there if its changes are
kept. -/
def completeParentWith (E : Env) (hook : Hook γ) (hooks : Hooks) (p : Task) (T : Table) :
    Except Exc (Table × List HookCall × Option γ) :=
  let calls := [.onAllChildrenDone p.id]
  match hook p T with
  | .error .transientError => .error .transientError
  | .error (.retryTask _) => .ok (T, calls, none)
  | .error (.other text) =>
    (failParent E hooks (.raised (.other text)) ("on_all_children_done failed: " ++ text) p T).map
      fun r => (r.1, calls ++ r.2, none)
  | .ok (T', v, g) =>
    if (T'.get p.id).map Task.state ≠ some .waiting then .ok (T', calls, some g)
    else if (T'.children p.id).any (·.state ∈ activeStates) then .ok (T', calls, some g)
    else match T'.modify p.id (actionDone E.now v) with
      | .ok T'' => .ok (T'', calls, some g)
      | .error (.validationError e) => .error (.other e)

/-- `checkWaitingParent` with any `on_all_children_done`. -/
def checkWaitingParentWith (E : Env) (hook : Hook γ) (hooks : Hooks) (id : TaskId) (T : Table) :
    Except Exc (Table × List HookCall × Option γ) :=
  match T.get id with
  | none => .ok (T, [], none)
  | some p =>
    if p.state ≠ .waiting then .ok (T, [], none)
    else if T.children id = [] then
      match T.modify id (actionDone E.now none) with
      | .ok T' => .ok (T', [], none)
      | .error (.validationError e) => .error (.other e)
    else if (T.children id).any (·.state ∈ activeStates) then .ok (T, [], none)
    else if (T.children id).any nonRetriable then
      let names := ((T.children id).filter nonRetriable).map Task.name
      (failParent E hooks (.childTasksFailedError names)
        ("Child tasks failed: " ++ ", ".intercalate names) p T).map fun r => (r.1, r.2, none)
    else if (T.children id).any (·.state = .failed) then .ok (T, [], none)
    else completeParentWith E hook hooks p T

/-- A hook given by what one call of it does. -/
def HookRun.asHook (E : Env) (h : HookRun) : Hook Unit := fun p T =>
  match runTaskTypeHook E h p T with
  | (T', .ok v) => .ok (T', v, ())
  | (_, .error exc) => .error exc

/-- With such a hook, the check is that of the waiting parents. -/
theorem completeParentWith_asHook (E : Env) (hooks : Hooks) (p : Task) (T : Table) :
    (completeParentWith E (fun p => (hooks.onAllChildrenDone p.id).asHook E p) hooks p T).map
      (fun r => (r.1, r.2.1)) = completeParent E hooks p T := by
  rcases hr : runTaskTypeHook E (hooks.onAllChildrenDone p.id) p T with ⟨T', exc | v⟩
  · cases exc with
    | transientError => simp only [completeParentWith, completeParent, HookRun.asHook, hr]; rfl
    | retryTask => simp only [completeParentWith, completeParent, HookRun.asHook, hr]; rfl
    | other text =>
      simp only [completeParentWith, completeParent, HookRun.asHook, hr]
      cases failParent E hooks (.raised (.other text)) ("on_all_children_done failed: " ++ text) p
        T <;> rfl
  · simp only [completeParentWith, completeParent, HookRun.asHook, hr]
    split_ifs
    · rfl
    · rfl
    · cases hm : T'.modify p.id (actionDone E.now v) with
      | error e => cases e; rfl
      | ok T'' => rfl

theorem checkWaitingParentWith_asHook (E : Env) (hooks : Hooks) (id : TaskId) (T : Table) :
    (checkWaitingParentWith E (fun p => (hooks.onAllChildrenDone p.id).asHook E p) hooks id T).map
      (fun r => (r.1, r.2.1)) = checkWaitingParent E hooks id T := by
  unfold checkWaitingParentWith checkWaitingParent
  cases T.get id with
  | none => rfl
  | some p =>
    simp only
    split_ifs
    · rfl
    · cases hm : T.modify id (actionDone E.now none) with
      | error e => cases e; rfl
      | ok T' => rfl
    · rfl
    · cases failParent E hooks _ _ p T <;> rfl
    · rfl
    · exact completeParentWith_asHook E hooks p T

end Check

/-! ## What a hook does -/

/-- Rows other than `id` are kept, and further ones are children of `id` that do not wait. -/
structure KeepsOthers (id : TaskId) (T T' : Table) : Prop where
  old : ∀ t ∈ T.rows, t.id ≠ id → t ∈ T'.rows
  new : ∀ t ∈ T'.rows, t.id ≠ id →
    t ∈ T.rows ∨ (T.nextId ≤ t.id ∧ t.parentId = some id ∧ t.state ≠ .waiting)

theorem KeepsOthers.refl (id : TaskId) (T : Table) : KeepsOthers id T T :=
  ⟨fun _ ht _ => ht, fun _ ht _ => .inl ht⟩

theorem KeepsOthers.update {id : TaskId} {T T₁ : Table} (h : KeepsOthers id T T₁)
    {f : Task → Task} : KeepsOthers id T (T₁.update id f) := by
  have key : ∀ t : Task, t.id ≠ id → (t ∈ (T₁.update id f).rows ↔ t ∈ T₁.rows) := fun t ht =>
    Table.mem_updateAll_of_not_mem (by simpa using ht)
  exact ⟨fun t ht hid => (key t hid).2 (h.old t ht hid),
    fun t ht hid => h.new t ((key t hid).1 ht) hid⟩

theorem mem_createChildren {E : Env} {p : Task} {specs : List TaskSpec} {T T' : Table}
    (h : createChildren E p specs T = .ok T') {t : Task} (ht : t ∈ T'.rows) :
    t ∈ T.rows ∨ (T.nextId ≤ t.id ∧ t.parentId = some p.id ∧ t.state = .pending) := by
  unfold createChildren at h
  split at h
  · cases h
  · obtain rfl := Except.ok.inj h
    rcases Table.mem_insert.1 ht with ht | ⟨q, hq, rfl⟩
    · exact .inl ht
    · obtain ⟨r, -, hr⟩ := List.mem_map.1 (List.fst_mem_of_mem_zipIdx hq)
      have hpar : q.1.parentId = some p.id := by rw [← hr]; rfl
      have hst : q.1.state = .pending := by rw [← hr]; rfl
      exact .inr ⟨Nat.le_add_right _ _, hpar, hst⟩

theorem createChildren_old {E : Env} {p : Task} {specs : List TaskSpec} {T T' : Table}
    (h : createChildren E p specs T = .ok T') {t : Task} (ht : t ∈ T.rows) : t ∈ T'.rows := by
  unfold createChildren at h
  split at h
  · cases h
  · obtain rfl := Except.ok.inj h
    exact Table.mem_insert.2 (.inl ht)

theorem createChildren_cons {E : Env} {p : Task} {spec : TaskSpec} {specs : List TaskSpec}
    {T T' : Table} (h : createChildren E p (spec :: specs) T = .ok T') :
    ∃ t ∈ T'.rows, T.nextId ≤ t.id ∧ t.parentId = some p.id ∧ t.state = .pending := by
  unfold createChildren at h
  split at h
  · cases h
  · obtain rfl := Except.ok.inj h
    exact ⟨_, Table.mem_insert.2 (.inr ⟨_, List.mem_cons_self, rfl⟩), Nat.le_add_right _ _, rfl,
      rfl⟩

theorem mem_children_of_keeps {id : TaskId} {T T' : Table} (h : KeepsOthers id T T')
    (hp : T'.get id = T.get id) {k : TaskId} (hk : k ≠ id) {c : Task} :
    c ∈ T'.children k ↔ c ∈ T.children k := by
  simp only [Table.mem_children]
  by_cases hid : c.id = id
  · rw [Table.mem_iff_get, Table.mem_iff_get, hid, hp]
  · refine and_congr_left fun hc => ⟨fun hm => ?_, fun hm => h.old c hm hid⟩
    rcases h.new c hm hid with hm | ⟨-, hpar, -⟩
    · exact hm
    · rw [hc] at hpar; exact absurd (Option.some.inj hpar) hk

section Hook

variable {E : Env} {h : HookRun} {p : Task} {T : Table}

def HookRun.raises (E : Env) (h : HookRun) (p : Task) : Option Exc :=
  if (E.reg.lookup p.typeCode).isNone then none
  else match h.spawns.find? (·.typeCode ∉ E.activeTypes), h.outcome with
    | some spec, _ => some (.other ("Unknown task type '" ++ spec.typeCode ++ "'."))
    | none, .error exc => some exc
    | none, .ok _ => none

/-- The hook returns, and has called a final action on its own task. -/
def HookRun.movesParent (E : Env) (h : HookRun) (p : Task) : Prop :=
  (E.reg.lookup p.typeCode).isSome ∧ h.raises E p = none ∧ h.move ≠ none

theorem ParentMove.apply_spec {sees : Task → Bool} {now : ℕ} {T₁ : Table} (m : ParentMove)
    (hk : KeepsOthers p.id T T₁) (hp : T₁.get p.id = some p) (hw : p.state = .waiting)
    (hc : ∀ c ∈ T.children p.id, c.state ∉ activeStates) :
    ∃ T', m.apply sees now p.id T₁ = .ok T' ∧ KeepsOthers p.id T T' ∧
      ∃ p', T'.get p.id = some p' ∧ p'.state ∈ terminalStates := by
  cases m with
  | done v =>
    have hf : actionDone now v p = .ok _ := checked_of_mem (by rw [hw]; decide)
    exact ⟨_, Table.modify_eq hp hf, hk.update, _, Table.get_update_self hp, List.mem_cons_self⟩
  | fail e =>
    have hf : actionFail now e none p = .ok _ := checked_of_mem (by rw [hw]; decide)
    exact ⟨_, Table.modify_eq hp hf, hk.update, _, Table.get_update_self hp,
      List.mem_cons_of_mem _ List.mem_cons_self⟩
  | cancel =>
    have hS : ∀ k ∈ Table.cancelled T₁.rows.length (T₁.rows.filter sees) [p.id],
        k = p.id ∨ T.nextId ≤ k := by
      refine Table.cancelled_subset (fun t ht q hq hSq ha => ?_) (by simp)
      replace ht := List.mem_of_mem_filter ht
      by_cases hid : t.id = p.id
      · exact .inl hid
      rcases hk.new t ht hid with ht | ⟨hle, -, -⟩
      · -- a row from before has no active parent among the records reached
        rcases hSq with rfl | hle
        · exact absurd ha (hc t (Table.mem_children.2 ⟨ht, hq⟩))
        · exact absurd (Table.parent_lt_nextId ht hq) (Nat.not_lt_of_le hle)
      · exact .inr hle
    have hok : T₁.actionCancel sees now p.id = .ok (T₁.updateAll
        (Table.cancelled T₁.rows.length (T₁.rows.filter sees) [p.id])
        fun t => { t with state := .cancelled, dateCompleted := some now }) := by
      unfold Table.actionCancel
      simp only [hp]
      rw [checkTransition_ok.2 (by rw [hw]; decide)]
      rfl
    have hmem : p.id ∈ Table.cancelled T₁.rows.length (T₁.rows.filter sees) [p.id] :=
      Table.mem_cancelled (by simp)
    have hg := T₁.get_updateAll (Table.cancelled T₁.rows.length (T₁.rows.filter sees) [p.id])
      (fun t => { t with state := .cancelled, dateCompleted := some now }) p.id
    rw [hp, Option.map_some, if_pos hmem] at hg
    refine ⟨_, hok, ⟨fun t ht hid => ?_, fun t ht hid => ?_⟩, _, hg, List.mem_of_getLast? rfl⟩
    · refine (Table.mem_updateAll_of_not_mem fun hm => ?_).2 (hk.old t ht hid)
      rcases hS t.id hm with h | h
      · exact hid h
      · exact absurd (Table.lt_nextId ht) (Nat.not_lt_of_le h)
    · obtain ⟨u, hu, rfl⟩ := List.mem_map.1 ht
      by_cases hm : u.id ∈ Table.cancelled T₁.rows.length (T₁.rows.filter sees) [p.id]
      · rw [if_pos hm] at hid ⊢
        rcases hk.new u hu hid with hu | ⟨h1, h2, -⟩
        · rcases hS u.id hm with h | h
          · exact absurd h hid
          · exact absurd (Table.lt_nextId hu) (Nat.not_lt_of_le h)
        · exact .inr ⟨h1, h2, nofun⟩
      · rw [if_neg hm] at hid ⊢
        exact hk.new u hu hid

variable (hp : T.get p.id = some p) (hw : p.state = .waiting)
  (hc : ∀ c ∈ T.children p.id, c.state ∉ activeStates)

include hp hw hc

theorem HookRun.effects_spec (hs : h.spawns.find? (·.typeCode ∉ E.activeTypes) = none) :
    ∃ T', h.effects E p T = .ok T' ∧ KeepsOthers p.id T T' ∧
      (h.move = none → T'.get p.id = some p ∧
        ((∃ c ∈ T'.children p.id, c.state ∈ activeStates) ↔ h.spawns ≠ [])) ∧
      (h.move ≠ none → ∃ p', T'.get p.id = some p' ∧ p'.state ∈ terminalStates) := by
  obtain ⟨T₁, h1⟩ : ∃ T₁, createChildren E p h.spawns T = .ok T₁ := by
    unfold createChildren; rw [hs]; exact ⟨_, rfl⟩
  have hk : KeepsOthers p.id T T₁ := by
    refine ⟨fun t ht _ => createChildren_old h1 ht, fun t ht _ => ?_⟩
    rcases mem_createChildren h1 ht with ht | ⟨h2, h3, h4⟩
    · exact .inl ht
    · exact .inr ⟨h2, h3, by rw [h4]; nofun⟩
  have hp₁ : T₁.get p.id = some p :=
    Table.mem_iff_get.1 (createChildren_old h1 (Table.mem_iff_get.2 hp))
  unfold HookRun.effects
  rw [h1]
  rcases hm : h.move with _ | m
  · refine ⟨T₁, rfl, hk, fun _ => ⟨hp₁, ?_, fun hne => ?_⟩, fun hne => absurd rfl hne⟩
    · rintro ⟨c, hcm, ha⟩ hnil
      obtain ⟨hcm, hpar⟩ := Table.mem_children.1 hcm
      rcases mem_createChildren h1 hcm with hcm | ⟨hle, -, -⟩
      · exact hc c (Table.mem_children.2 ⟨hcm, hpar⟩) ha
      · -- nothing was created
        rw [hnil] at h1
        unfold createChildren at h1
        rw [List.find?_nil] at h1
        obtain rfl := Except.ok.inj h1
        rcases Table.mem_insert.1 hcm with hcm | ⟨q, hq, -⟩
        · exact absurd (Table.lt_nextId hcm) (Nat.not_lt_of_le hle)
        · exact absurd hq List.not_mem_nil
    · obtain ⟨spec, specs, hcons⟩ := List.exists_cons_of_ne_nil hne
      rw [hcons] at h1
      obtain ⟨t, ht, -, hpar, hst⟩ := createChildren_cons h1
      exact ⟨t, Table.mem_children.2 ⟨ht, hpar⟩, by rw [hst]; decide⟩
  · obtain ⟨T', h2, hk', hp'⟩ := m.apply_spec hk hp₁ hw hc
    exact ⟨T', h2, hk', fun hn => absurd hn (Option.some_ne_none m), fun _ => hp'⟩

omit hp hw hc in
theorem runTaskTypeHook_unregistered (hr : (E.reg.lookup p.typeCode).isNone) :
    runTaskTypeHook E h p T = (T, .ok none) := if_pos hr

theorem runTaskTypeHook_raises {exc : Exc} (hr : h.raises E p = some exc) :
    runTaskTypeHook E h p T = (T, .error exc) := by
  unfold HookRun.raises at hr
  split_ifs at hr with hreg
  unfold runTaskTypeHook
  rw [if_neg hreg]
  split at hr
  · next spec hs =>
    obtain rfl := Option.some.inj hr
    have he : h.effects E p T = .error (.validationError
        ("Unknown task type '" ++ spec.typeCode ++ "'.")) := by
      unfold HookRun.effects createChildren; rw [hs]; rfl
    rw [he]
  · next e hs ho =>
    obtain rfl := Option.some.inj hr
    obtain ⟨T', he, -⟩ := HookRun.effects_spec hp hw hc hs
    rw [he, ho]
  · cases hr

theorem runTaskTypeHook_returns (hreg : (E.reg.lookup p.typeCode).isSome)
    (hr : h.raises E p = none) : ∃ T' v, runTaskTypeHook E h p T = (T', .ok v) ∧
      h.outcome = .ok v ∧ KeepsOthers p.id T T' ∧
      (h.move = none → T'.get p.id = some p ∧
        ((∃ c ∈ T'.children p.id, c.state ∈ activeStates) ↔ h.spawns ≠ [])) ∧
      (h.move ≠ none → ∃ p', T'.get p.id = some p' ∧ p'.state ∈ terminalStates) := by
  have hreg' : ¬ (E.reg.lookup p.typeCode).isNone := by
    intro hn
    rw [Option.isNone_iff_eq_none.1 hn] at hreg
    cases hreg
  unfold HookRun.raises at hr
  rw [if_neg hreg'] at hr
  split at hr
  · cases hr
  · cases hr
  · next v hs ho =>
    obtain ⟨T', he, h1, h2, h3⟩ := HookRun.effects_spec hp hw hc hs
    refine ⟨T', v, ?_, ho, h1, h2, h3⟩
    unfold runTaskTypeHook
    rw [if_neg hreg', he, ho]

/-- `on_failure` then `action_fail`: the parent is failed, unless `on_failure` itself has called a
final action on it, and then everything is rolled back. -/
theorem failParent_spec (hooks : Hooks) (cause : FailureCause) (msg : String) :
    ((hooks.onFailure p.id).movesParent E p → ∃ e, failParent E hooks cause msg p T = .error e) ∧
      (¬ (hooks.onFailure p.id).movesParent E p → ∃ T' calls,
        failParent E hooks cause msg p T = .ok (T', calls) ∧ KeepsOthers p.id T T' ∧
          ∃ p', T'.get p.id = some p' ∧ p'.state = .failed) := by
  -- the parent is still waiting when the hook has not moved it
  have stays : ∀ T₁ : Table, (runTaskTypeHook E (hooks.onFailure p.id) p T).1 = T₁ →
      KeepsOthers p.id T T₁ → T₁.get p.id = some p → ∃ T' calls,
        failParent E hooks cause msg p T = .ok (T', calls) ∧ KeepsOthers p.id T T' ∧
          ∃ p', T'.get p.id = some p' ∧ p'.state = .failed := by
    intro T₁ hT₁ hk hg
    have hf : actionFail E.now (some msg) none p = .ok _ := checked_of_mem (by rw [hw]; decide)
    unfold failParent
    rw [hT₁, Table.modify_eq hg hf]
    exact ⟨_, _, rfl, hk.update, _, Table.get_update_self hg, rfl⟩
  by_cases hreg : (E.reg.lookup p.typeCode).isSome
  · rcases hr : (hooks.onFailure p.id).raises E p with _ | exc
    · obtain ⟨T₁, v, hrun, -, hk, h0, h1⟩ := runTaskTypeHook_returns hp hw hc hreg hr
      refine ⟨fun hm => ?_, fun hm => ?_⟩
      · obtain ⟨p', hp', hs⟩ := h1 hm.2.2
        have hfail : .failed ∉ allowedTransitions p'.state := by
          revert hs; cases p'.state <;> decide
        obtain ⟨⟨e⟩, he⟩ : ∃ e, actionFail E.now (some msg) none p' = .error e :=
          checked_error hfail
        refine ⟨.other e, ?_⟩
        unfold failParent Table.modify
        simp only [hrun, hp', he]
        rfl
      · have hnone : (hooks.onFailure p.id).move = none := by
          by_contra hne; exact hm ⟨hreg, hr, hne⟩
        exact stays T₁ (by rw [hrun]) hk (h0 hnone).1
    · refine ⟨fun hm => ?_, fun _ => ?_⟩
      · rw [hm.2.1] at hr; cases hr
      · exact stays T (by rw [runTaskTypeHook_raises hp hw hc hr]) (.refl _ _) hp
  · have hnone : (E.reg.lookup p.typeCode).isNone := by
      rw [Option.isNone_iff_eq_none]; exact Option.not_isSome_iff_eq_none.1 hreg
    refine ⟨fun hm => absurd hm.1 hreg, fun _ => ?_⟩
    exact stays T (by rw [runTaskTypeHook_unregistered hnone]) (.refl _ _) hp

theorem failParent_ok {hooks : Hooks} {cause : FailureCause} {msg : String}
    {r : Table × List HookCall} (h : failParent E hooks cause msg p T = .ok r) :
    KeepsOthers p.id T r.1 ∧ ∃ p', r.1.get p.id = some p' ∧ p'.state = .failed := by
  obtain ⟨hbad, hgood⟩ := failParent_spec hp hw hc hooks cause msg
  by_cases hm : (hooks.onFailure p.id).movesParent E p
  · obtain ⟨e, he⟩ := hbad hm
    rw [he] at h
    cases h
  · obtain ⟨T', calls, h1, h2, h3⟩ := hgood hm
    obtain rfl := Except.ok.inj (h1.symm.trans h)
    exact ⟨h2, h3⟩

/-- The end of `on_all_children_done` decides the parent: it returns without children still to
wait for, or raises an error that fails the parent. -/
def Settles (E : Env) (hooks : Hooks) (p : Task) : Prop :=
  match (hooks.onAllChildrenDone p.id).raises E p with
  | none => (E.reg.lookup p.typeCode).isNone ∨ (hooks.onAllChildrenDone p.id).move ≠ none ∨
      (hooks.onAllChildrenDone p.id).spawns = []
  | some (.other _) => ¬ (hooks.onFailure p.id).movesParent E p
  | some _ => False

omit hp hc in
/-- A hook that returns leaves `action_done` to the check, unless it moved the parent or spawned a
new wave. -/
theorem completeParent_returns (hooks : Hooks) {T' : Table} {v : Option Json}
    (hrun : runTaskTypeHook E (hooks.onAllChildrenDone p.id) p T = (T', .ok v))
    (hg : T'.get p.id = some p) (ha : ∀ c ∈ T'.children p.id, c.state ∉ activeStates) :
    ∃ T'' calls, completeParent E hooks p T = .ok (T'', calls) ∧
      T'' = T'.update p.id (fun _ => { p with
        state := .done, taskResult := v, dateCompleted := some E.now, progress := 100 }) := by
  have hf : actionDone E.now v p = .ok _ := checked_of_mem (by rw [hw]; decide)
  have hany : (T'.children p.id).any (·.state ∈ activeStates) = false := by
    rw [List.any_eq_false]
    exact fun c hcm => by simpa using ha c hcm
  refine ⟨_, [.onAllChildrenDone p.id], ?_, rfl⟩
  unfold completeParent
  simp only [hrun, hg, hany, Table.modify_eq hg hf, Option.map_some, hw, ne_eq, not_true_eq_false,
    if_false, Bool.false_eq_true]

theorem completeParent_raises (hooks : Hooks) {exc : Exc}
    (hr : (hooks.onAllChildrenDone p.id).raises E p = some exc) :
    (Settles E hooks p → ∃ T' calls, completeParent E hooks p T = .ok (T', calls) ∧
      KeepsOthers p.id T T' ∧ ∃ p', T'.get p.id = some p' ∧ p'.state ≠ .waiting) ∧
    (¬ Settles E hooks p → (∃ e, completeParent E hooks p T = .error e) ∨
      ∃ calls, completeParent E hooks p T = .ok (T, calls)) := by
  have hrun := runTaskTypeHook_raises hp hw hc hr
  unfold Settles completeParent
  simp only [hr, hrun]
  cases exc with
  | transientError => exact ⟨False.elim, fun _ => .inl ⟨_, rfl⟩⟩
  | retryTask after => exact ⟨False.elim, fun _ => .inr ⟨_, rfl⟩⟩
  | other text =>
    obtain ⟨hbad, hgood⟩ := failParent_spec hp hw hc hooks (.raised (.other text))
      ("on_all_children_done failed: " ++ text)
    refine ⟨fun hm => ?_, fun hm => ?_⟩
    · obtain ⟨T', calls, h1, h2, p', h3, h4⟩ := hgood hm
      simp only [h1]
      exact ⟨T', _, rfl, h2, p', h3, by rw [h4]; nofun⟩
    · obtain ⟨e, he⟩ := hbad (not_not.1 hm)
      simp only [he]
      exact .inl ⟨e, rfl⟩

theorem completeParent_spec (hooks : Hooks) :
    (Settles E hooks p → ∃ T' calls, completeParent E hooks p T = .ok (T', calls) ∧
      KeepsOthers p.id T T' ∧ ∃ p', T'.get p.id = some p' ∧ p'.state ≠ .waiting) ∧
    (¬ Settles E hooks p → (∃ e, completeParent E hooks p T = .error e) ∨
      ∃ T' calls, completeParent E hooks p T = .ok (T', calls) ∧ KeepsOthers p.id T T' ∧
        T'.get p.id = some p) := by
  rcases hr : (hooks.onAllChildrenDone p.id).raises E p with _ | exc
  · have hsettle : Settles E hooks p ↔ (E.reg.lookup p.typeCode).isNone ∨
        (hooks.onAllChildrenDone p.id).move ≠ none ∨
          (hooks.onAllChildrenDone p.id).spawns = [] := by
      unfold Settles; rw [hr]
    rw [hsettle]
    rcases hreg : E.reg.lookup p.typeCode with _ | cls
    · refine ⟨fun _ => ?_, fun hn => absurd (.inl rfl) hn⟩
      have hrun := runTaskTypeHook_unregistered (E := E)
        (h := hooks.onAllChildrenDone p.id) (p := p) (T := T) (by rw [hreg]; rfl)
      obtain ⟨T', calls, h1, rfl⟩ := completeParent_returns hw hooks hrun hp hc
      exact ⟨_, calls, h1, (KeepsOthers.refl _ _).update, _, Table.get_update_self hp, nofun⟩
    · obtain ⟨T₁, v, hrun, -, hk, h0, h1⟩ :=
        runTaskTypeHook_returns hp hw hc (by rw [hreg]; rfl) hr
      rcases hm : (hooks.onAllChildrenDone p.id).move with _ | m
      · obtain ⟨hg, hwave⟩ := h0 hm
        refine ⟨fun hs => ?_, fun hn => .inr ?_⟩
        · have hnil : (hooks.onAllChildrenDone p.id).spawns = [] := by simpa using hs
          obtain ⟨T', calls, h2, rfl⟩ := completeParent_returns hw hooks hrun hg
            fun c hcm ha => hwave.1 ⟨c, hcm, ha⟩ hnil
          exact ⟨_, calls, h2, hk.update, _, Table.get_update_self hg, nofun⟩
        · have hne : (hooks.onAllChildrenDone p.id).spawns ≠ [] := by simpa using hn
          obtain ⟨c, hcm, ha⟩ := hwave.2 hne
          have hany : (T₁.children p.id).any (·.state ∈ activeStates) = true :=
            List.any_eq_true.2 ⟨c, hcm, by simpa using ha⟩
          refine ⟨T₁, [.onAllChildrenDone p.id], ?_, hk, hg⟩
          unfold completeParent
          simp only [hrun, hg, hany, Option.map_some, hw, ne_eq, not_true_eq_false, if_false,
            if_true]
      · obtain ⟨p', hg, ht⟩ := h1 (by rw [hm]; exact Option.some_ne_none m)
        have hne : p'.state ≠ .waiting := by rintro h; rw [h] at ht; revert ht; decide
        refine ⟨fun _ => ⟨T₁, [.onAllChildrenDone p.id], ?_, hk, p', hg, hne⟩,
          fun hn => absurd (.inr (.inl (Option.some_ne_none m))) hn⟩
        unfold completeParent
        simp only [hrun, hg, Option.map_some, ne_eq, Option.some.injEq, hne, not_false_eq_true,
          if_true]
  · obtain ⟨h1, h2⟩ := completeParent_raises hp hw hc hooks hr
    refine ⟨h1, fun hn => (h2 hn).imp_right ?_⟩
    rintro ⟨calls, h⟩
    exact ⟨T, calls, h, .refl _ _, hp⟩

end Hook

/-! ## What a check changes -/

/-- The check of this task moves it out of `waiting`. -/
def Resolvable (E : Env) (hooks : Hooks) (T : Table) (id : TaskId) : Prop :=
  ∃ p, T.get id = some p ∧ p.state = .waiting ∧
    (T.children id = [] ∨
      ((∀ c ∈ T.children id, c.state ∉ activeStates) ∧
        (((∃ c ∈ T.children id, nonRetriable c = true) ∧
            ¬ (hooks.onFailure id).movesParent E p) ∨
          ((∀ c ∈ T.children id, c.state ≠ .failed) ∧ Settles E hooks p))))

/-- What one transaction of the poll leaves behind. -/
structure CheckSpec (id : TaskId) (T T' : Table) (resolved : Prop) : Prop where
  keeps : KeepsOthers id T T'
  moved : resolved → ∃ p', T'.get id = some p' ∧ p'.state ≠ .waiting
  stays : ¬ resolved → T'.get id = T.get id

theorem CheckSpec.same {id : TaskId} {T : Table} {resolved : Prop} (h : ¬ resolved) :
    CheckSpec id T T resolved := ⟨.refl id T, fun hr => absurd hr h, fun _ => rfl⟩

theorem nonRetriable_failed {c : Task} (h : nonRetriable c = true) : c.state = .failed := by
  unfold nonRetriable at h
  simp only [Bool.and_eq_true, decide_eq_true_eq] at h
  exact h.1

section Branches

variable {E : Env} {hooks : Hooks} {T : Table} {p : Task} {γ : Type} {hook : Hook γ}
  (hp : T.get p.id = some p) (hw : p.state = .waiting)

include hp hw

theorem checkWaitingParentWith_no_children (hnil : T.children p.id = []) :
    checkWaitingParentWith E hook hooks p.id T = .ok (T.update p.id (fun _ => { p with
      state := .done, taskResult := none, dateCompleted := some E.now, progress := 100 }), [],
        none) := by
  have hf : actionDone E.now none p = .ok _ := checked_of_mem (by rw [hw]; decide)
  unfold checkWaitingParentWith
  simp only [hp, hw, ne_eq, not_true_eq_false, if_false, hnil, if_true, Table.modify_eq hp hf]

theorem checkWaitingParentWith_active (ha : ∃ c ∈ T.children p.id, c.state ∈ activeStates) :
    checkWaitingParentWith E hook hooks p.id T = .ok (T, [], none) := by
  obtain ⟨c, hcm, ha⟩ := ha
  have hact : (T.children p.id).any (·.state ∈ activeStates) = true :=
    List.any_eq_true.2 ⟨c, hcm, decide_eq_true ha⟩
  unfold checkWaitingParentWith
  simp only [hp, hw, ne_eq, not_true_eq_false, if_false]
  rw [if_neg (List.ne_nil_of_mem hcm), if_pos hact]

theorem checkWaitingParent_active (ha : ∃ c ∈ T.children p.id, c.state ∈ activeStates) :
    checkWaitingParent E hooks p.id T = .ok (T, []) := by
  rw [← checkWaitingParentWith_asHook, checkWaitingParentWith_active hp hw ha]
  rfl

variable (hc : ∀ c ∈ T.children p.id, c.state ∉ activeStates)

include hc

omit hp hw in
theorem children_any_active : (T.children p.id).any (·.state ∈ activeStates) = false := by
  rw [List.any_eq_false]
  exact fun c hcm => by simpa using hc c hcm

theorem checkWaitingParentWith_nonRetriable
    (hn : ∃ c ∈ T.children p.id, nonRetriable c = true) :
    checkWaitingParentWith E hook hooks p.id T = (failParent E hooks
      (.childTasksFailedError (((T.children p.id).filter nonRetriable).map Task.name))
      ("Child tasks failed: " ++
        ", ".intercalate (((T.children p.id).filter nonRetriable).map Task.name)) p T).map
          fun r => (r.1, r.2, none) := by
  obtain ⟨c, hcm, hn⟩ := hn
  have hany : (T.children p.id).any nonRetriable = true := List.any_eq_true.2 ⟨c, hcm, hn⟩
  unfold checkWaitingParentWith
  simp only [hp, hw, ne_eq, not_true_eq_false, if_false]
  rw [if_neg (List.ne_nil_of_mem hcm), if_neg (by rw [children_any_active hc]; nofun), if_pos hany]

theorem checkWaitingParentWith_retriable
    (hn : ¬ ∃ c ∈ T.children p.id, nonRetriable c = true)
    (hf : ∃ c ∈ T.children p.id, c.state = .failed) :
    checkWaitingParentWith E hook hooks p.id T = .ok (T, [], none) := by
  obtain ⟨c, hcm, hf⟩ := hf
  have hany : (T.children p.id).any (·.state = .failed) = true :=
    List.any_eq_true.2 ⟨c, hcm, decide_eq_true hf⟩
  unfold checkWaitingParentWith
  simp only [hp, hw, ne_eq, not_true_eq_false, if_false]
  rw [if_neg (List.ne_nil_of_mem hcm), if_neg (by rw [children_any_active hc]; nofun),
    if_neg (by rw [List.any_eq_true]; exact hn), if_pos hany]

theorem checkWaitingParentWith_failed {r : Table × List HookCall × Option γ}
    (hf : ∃ c ∈ T.children p.id, c.state = .failed)
    (h : checkWaitingParentWith E hook hooks p.id T = .ok r) : r.2.2 = none ∧
      (r.1 = T ∨ KeepsOthers p.id T r.1 ∧ ∃ p', r.1.get p.id = some p' ∧ p'.state = .failed) := by
  by_cases hn : ∃ c ∈ T.children p.id, nonRetriable c = true
  · rw [checkWaitingParentWith_nonRetriable hp hw hc hn] at h
    obtain ⟨q, hq, rfl⟩ := map_ok h
    exact ⟨rfl, .inr (failParent_ok hp hw hc hq)⟩
  · rw [checkWaitingParentWith_retriable hp hw hc hn hf] at h
    obtain rfl := Except.ok.inj h
    exact ⟨rfl, .inl rfl⟩

theorem checkWaitingParentWith_complete (hne : T.children p.id ≠ [])
    (hno : ∀ c ∈ T.children p.id, c.state ≠ .failed) :
    checkWaitingParentWith E hook hooks p.id T = completeParentWith E hook hooks p T := by
  have hnon : ¬ (T.children p.id).any nonRetriable = true := by
    rw [List.any_eq_true]
    exact fun ⟨c, hcm, hn⟩ => hno c hcm (nonRetriable_failed hn)
  have hfailed : ¬ (T.children p.id).any (·.state = .failed) = true := by
    rw [List.any_eq_true]
    exact fun ⟨c, hcm, hf⟩ => hno c hcm (of_decide_eq_true hf)
  unfold checkWaitingParentWith
  simp only [hp, hw, ne_eq, not_true_eq_false, if_false]
  rw [if_neg hne, if_neg (by rw [children_any_active hc]; nofun), if_neg hnon, if_neg hfailed]

theorem checkWaitingParent_complete (hne : T.children p.id ≠ [])
    (hno : ∀ c ∈ T.children p.id, c.state ≠ .failed) :
    checkWaitingParent E hooks p.id T = completeParent E hooks p T := by
  rw [← checkWaitingParentWith_asHook, checkWaitingParentWith_complete hp hw hc hne hno,
    completeParentWith_asHook]

/-- A failed child keeps the parent from being completed: it fails or keeps waiting. -/
theorem checkWaitingParent_failed_child {c : Task} (hcm : c ∈ T.children p.id)
    (hf : c.state = .failed) {T' : Table} {calls : List HookCall}
    (h : checkWaitingParent E hooks p.id T = .ok (T', calls)) :
    (T'.get p.id).map Task.state = some .failed ∨ (T'.get p.id).map Task.state = some .waiting := by
  rw [← checkWaitingParentWith_asHook] at h
  obtain ⟨r, hr, heq⟩ := map_ok h
  obtain ⟨rfl, -⟩ := Prod.mk.inj heq
  obtain ⟨-, hsame | ⟨-, p', hp', hs⟩⟩ := checkWaitingParentWith_failed hp hw hc ⟨c, hcm, hf⟩ hr
  · exact .inr (by rw [hsame, hp, Option.map_some, hw])
  · exact .inl (by rw [hp', Option.map_some, hs])

end Branches

theorem checkWaitingParent_spec {E : Env} {hooks : Hooks} {T : Table} {p : Task}
    (hp : T.get p.id = some p) (hw : p.state = .waiting) :
    CheckSpec p.id T (afterCheck E hooks T p.id) (Resolvable E hooks T p.id) := by
  have hres : Resolvable E hooks T p.id ↔ (T.children p.id = [] ∨
      ((∀ c ∈ T.children p.id, c.state ∉ activeStates) ∧
        (((∃ c ∈ T.children p.id, nonRetriable c = true) ∧
            ¬ (hooks.onFailure p.id).movesParent E p) ∨
          ((∀ c ∈ T.children p.id, c.state ≠ .failed) ∧ Settles E hooks p)))) := by
    unfold Resolvable
    constructor
    · rintro ⟨q, hq, -, h⟩
      obtain rfl : p = q := Option.some.inj (hp.symm.trans hq)
      exact h
    · exact fun h => ⟨p, hp, hw, h⟩
  unfold afterCheck
  by_cases hnil : T.children p.id = []
  · rw [← checkWaitingParentWith_asHook, checkWaitingParentWith_no_children hp hw hnil]
    exact ⟨(KeepsOthers.refl _ _).update, fun _ => ⟨_, Table.get_update_self hp, nofun⟩,
      fun hn => absurd (hres.2 (.inl hnil)) hn⟩
  rw [or_iff_right hnil] at hres
  by_cases hact : ∃ c ∈ T.children p.id, c.state ∈ activeStates
  · rw [checkWaitingParent_active hp hw hact]
    obtain ⟨c, hcm, ha⟩ := hact
    exact .same fun h => (hres.1 h).1 c hcm ha
  have hc : ∀ c ∈ T.children p.id, c.state ∉ activeStates := fun c hcm ha => hact ⟨c, hcm, ha⟩
  rw [and_iff_right hc] at hres
  by_cases hn : ∃ c ∈ T.children p.id, nonRetriable c = true
  · rw [← checkWaitingParentWith_asHook, checkWaitingParentWith_nonRetriable hp hw hc hn]
    have hno : ¬ ((∀ c ∈ T.children p.id, c.state ≠ .failed) ∧ Settles E hooks p) := fun h =>
      hn.elim fun c ⟨hcm, hf⟩ => h.1 c hcm (nonRetriable_failed hf)
    rw [or_iff_left hno, and_iff_right hn] at hres
    obtain ⟨hbad, hgood⟩ := failParent_spec hp hw hc hooks
      (.childTasksFailedError (((T.children p.id).filter nonRetriable).map Task.name))
      ("Child tasks failed: " ++
        ", ".intercalate (((T.children p.id).filter nonRetriable).map Task.name))
    by_cases hm : (hooks.onFailure p.id).movesParent E p
    · obtain ⟨e, he⟩ := hbad hm
      rw [he]
      exact .same fun h => hres.1 h hm
    · obtain ⟨T', calls, h1, h2, p', h3, h4⟩ := hgood hm
      rw [h1]
      exact ⟨h2, fun _ => ⟨p', h3, by rw [h4]; nofun⟩, fun hn' => absurd (hres.2 hm) hn'⟩
  rw [or_iff_right fun h => hn h.1] at hres
  by_cases hf : ∃ c ∈ T.children p.id, c.state = .failed
  · rw [← checkWaitingParentWith_asHook, checkWaitingParentWith_retriable hp hw hc hn hf]
    obtain ⟨c, hcm, hf⟩ := hf
    exact .same fun h => (hres.1 h).1 c hcm hf
  have hno : ∀ c ∈ T.children p.id, c.state ≠ .failed := fun c hcm h => hf ⟨c, hcm, h⟩
  rw [and_iff_right hno] at hres
  rw [checkWaitingParent_complete hp hw hc hnil hno]
  obtain ⟨hgood, hbad⟩ := completeParent_spec hp hw hc hooks
  by_cases hs : Settles E hooks p
  · obtain ⟨T', calls, h1, h2, h3⟩ := hgood hs
    rw [h1]
    exact ⟨h2, fun _ => h3, fun hn => absurd (hres.2 hs) hn⟩
  · rcases hbad hs with ⟨e, he⟩ | ⟨T', calls, h1, h2, h3⟩
    · rw [he]
      exact .same fun h => hs (hres.1 h)
    · rw [h1]
      exact ⟨h2, fun h => absurd (hres.1 h) hs, fun _ => h3.trans hp.symm⟩

theorem afterCheck_spec (E : Env) (hooks : Hooks) (T : Table) (id : TaskId) :
    CheckSpec id T (afterCheck E hooks T id) (Resolvable E hooks T id) := by
  rcases hp : T.get id with _ | p
  · unfold afterCheck checkWaitingParent
    simp only [hp]
    exact .same fun ⟨p, hp', _⟩ => by rw [hp] at hp'; cases hp'
  · obtain ⟨hm, rfl⟩ := Table.get_eq_some_iff.1 hp
    by_cases hw : p.state = .waiting
    · exact checkWaitingParent_spec hp hw
    · unfold afterCheck checkWaitingParent
      simp only [hp, hw, ne_eq, not_false_eq_true, if_true]
      refine .same fun ⟨q, hq, hq', _⟩ => hw ?_
      obtain rfl := Option.some.inj (hp.symm.trans hq)
      exact hq'

/-! ## A cycle of the poll -/

theorem CheckSpec.mem_iff {id : TaskId} {T T' : Table} {resolved : Prop}
    (h : CheckSpec id T T' resolved) (hr : ¬ resolved) {t : Task} (hw : t.state = .waiting) :
    t ∈ T'.rows ↔ t ∈ T.rows := by
  by_cases hid : t.id = id
  · rw [Table.mem_iff_get, Table.mem_iff_get, hid, h.stays hr]
  · refine ⟨fun ht => ?_, fun ht => h.keeps.old t ht hid⟩
    rcases h.keeps.new t ht hid with ht | ⟨-, -, hne⟩
    · exact ht
    · exact absurd hw hne

/-- A check that leaves its parent alone decides no other parent. -/
theorem CheckSpec.resolvable_iff {E : Env} {hooks : Hooks} {id k : TaskId} {T T' : Table}
    {resolved : Prop} (h : CheckSpec id T T' resolved) (hr : ¬ resolved) (hk : k ≠ id) :
    Resolvable E hooks T' k ↔ Resolvable E hooks T k := by
  have hchild : ∀ c, c ∈ T'.children k ↔ c ∈ T.children k := fun c =>
    mem_children_of_keeps h.keeps (h.stays hr) hk
  have hnil : T'.children k = [] ↔ T.children k = [] := by
    simp only [List.eq_nil_iff_forall_not_mem, hchild]
  have hget : ∀ p : Task, p.state = .waiting → (T'.get k = some p ↔ T.get k = some p) := by
    intro p hw
    simp only [Table.get_eq_some_iff, h.mem_iff hr hw]
  unfold Resolvable
  simp only [hnil, hchild]
  constructor
  · rintro ⟨p, hp, hw, hres⟩; exact ⟨p, (hget p hw).1 hp, hw, hres⟩
  · rintro ⟨p, hp, hw, hres⟩; exact ⟨p, (hget p hw).2 hp, hw, hres⟩

def SomeMoved (T T' : Table) : Prop :=
  ∃ t ∈ T.rows, t.state = .waiting ∧ ∃ t', T'.get t.id = some t' ∧ t'.state ≠ .waiting

theorem foldl_afterCheck_keeps (E : Env) (hooks : Hooks) : ∀ {ids : List TaskId} {T : Table}
    {t : Task}, t ∈ T.rows → t.id ∉ ids → t ∈ (ids.foldl (afterCheck E hooks) T).rows := by
  intro ids
  induction ids with
  | nil => intro T t ht _; exact ht
  | cons id ids ih =>
    intro T t ht hid
    rw [List.mem_cons, not_or] at hid
    exact ih ((afterCheck_spec E hooks T id).keeps.old t ht hid.1) hid.2

/-- The transactions of a cycle move a waiting task exactly when the table they start from has a
resolvable one among those they look at. -/
theorem foldl_afterCheck_moved {E : Env} {hooks : Hooks} : ∀ {ids : List TaskId} {T : Table},
    ids.Nodup → (SomeMoved T (ids.foldl (afterCheck E hooks) T) ↔
      ∃ id ∈ ids, Resolvable E hooks T id) := by
  intro ids
  induction ids with
  | nil =>
    intro T _
    refine iff_of_false ?_ (by simp)
    rintro ⟨t, ht, hw, t', ht', hne⟩
    rw [List.foldl_nil, Table.mem_iff_get.1 ht] at ht'
    obtain rfl := Option.some.inj ht'
    exact hne hw
  | cons id ids ih =>
    intro T hnd
    obtain ⟨hnot, hnd⟩ := List.nodup_cons.1 hnd
    have hspec := afterCheck_spec E hooks T id
    rw [List.foldl_cons, List.exists_mem_cons_iff]
    by_cases hr : Resolvable E hooks T id
    · -- moved by this transaction, and the later ones leave it alone
      refine iff_of_true ?_ (.inl hr)
      obtain ⟨p', hp', hne⟩ := hspec.moved hr
      obtain ⟨p, hp, hw, -⟩ := hr
      obtain ⟨hpm, rfl⟩ := Table.get_eq_some_iff.1 hp
      obtain ⟨hpm', hid⟩ := Table.get_eq_some_iff.1 hp'
      have hkept := foldl_afterCheck_keeps E hooks hpm' (by rw [hid]; exact hnot)
      exact ⟨p, hpm, hw, p', Table.get_eq_some_iff.2 ⟨hkept, hid⟩, hne⟩
    · rw [or_iff_right hr]
      have hsame : SomeMoved T (ids.foldl (afterCheck E hooks) (afterCheck E hooks T id)) ↔
          SomeMoved (afterCheck E hooks T id)
            (ids.foldl (afterCheck E hooks) (afterCheck E hooks T id)) := by
        unfold SomeMoved
        constructor
        · rintro ⟨t, ht, hw, h⟩; exact ⟨t, (hspec.mem_iff hr hw).2 ht, hw, h⟩
        · rintro ⟨t, ht, hw, h⟩; exact ⟨t, (hspec.mem_iff hr hw).1 ht, hw, h⟩
      rw [hsame, ih hnd]
      refine exists_congr fun k => and_congr_right fun hk => ?_
      exact hspec.resolvable_iff hr fun h => hnot (h ▸ hk)

theorem waitingIds_nodup (T : Table) : (waitingIds T).Nodup := by
  unfold waitingIds
  have hp : ((select keyLE (·.state = .waiting) T.rows).map Task.id).Nodup :=
    ((List.perm_insertionSort keyLE _).map Task.id).nodup_iff.2
      (T.nodup.sublist (List.filter_sublist.map Task.id))
  exact hp.sublist ((List.take_sublist 10 _).map Task.id)

/-- A waiting parent with children, all done or cancelled, whose `on_all_children_done` returns
without spawning. -/
def Completable (E : Env) (hooks : Hooks) (T : Table) (p : Task) : Prop :=
  p.state = .waiting ∧ T.children p.id ≠ [] ∧
    (∀ c ∈ T.children p.id, c.state = .done ∨ c.state = .cancelled) ∧
    (hooks.onAllChildrenDone p.id).raises E p = none ∧
    (hooks.onAllChildrenDone p.id).spawns = []

instance (E : Env) (hooks : Hooks) (T : Table) (p : Task) :
    Decidable (Completable E hooks T p) := by
  unfold Completable; infer_instance

/-- **Polling progress.** A cycle that has a completable parent in the table moves some waiting
task, exactly when one of the first ten waiting tasks is resolvable. -/
theorem poll_progress_iff (E : Env) (hooks : Hooks) (T : Table) :
    ((∃ p ∈ T.rows, Completable E hooks T p) → SomeMoved T (checkWaitingParents E hooks T)) ↔
      ((∃ p ∈ T.rows, Completable E hooks T p) →
        ∃ id ∈ waitingIds T, Resolvable E hooks T id) :=
  imp_congr_right fun _ => foldl_afterCheck_moved (waitingIds_nodup T)

def nestedTable : Table where
  rows := (List.range 11).map (fun k =>
      { id := k + 1, name := "step", typeCode := "pipeline", state := .waiting
        parentId := if k = 0 then none else some k, dateCreated := k, createUid := 2 }) ++
    [{ id := 12, name := "leaf", typeCode := "leaf", state := .done, parentId := some 11
       dateCreated := 11, createUid := 2 }]
  nodup := by decide

def pipelineEnv : Env := ⟨[("pipeline", {}), ("leaf", {})], ["pipeline", "leaf"], 100, []⟩

def quietHooks : Hooks := ⟨fun _ => {}, fun _ => {}⟩

/-- The last parent is completable, and no number of cycles changes the table. -/
theorem poll_starved : (∃ p ∈ nestedTable.rows, Completable pipelineEnv quietHooks nestedTable p) ∧
    ∀ n, (checkWaitingParents pipelineEnv quietHooks)^[n] nestedTable = nestedTable := by
  have hfix : checkWaitingParents pipelineEnv quietHooks nestedTable = nestedTable := by decide
  exact ⟨by decide, fun n => Function.iterate_fixed hfix n⟩

end GenericTaskQueue
