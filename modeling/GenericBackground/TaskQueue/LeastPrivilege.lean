import GenericBackground.TaskQueue.Vacuum

/-!
# Least privilege

Task code runs as the user who has created the task. The worker's own environment is in superuser
mode; `_creator_env` and `_run_task_type_hook` leave it, and rebind the records that they hand over.
`create_children` creates in the name of the parent's creator, whoever calls it, so a whole tree
belongs to the creator of its root.

Two ways lead around this. `create_task` with a `parent_id` creates in the name of whoever calls it.
And `ChildTasksFailedError` carries the failed children as the worker has read them: only the
arguments of a hook are rebound, not what an exception carries (`superuser_children`).
-/

namespace GenericTaskQueue

open Lts

/-! ## Environments and records -/

def superuserId : UserId := 1

/-- An environment: its user, and whether it is in superuser mode. -/
structure UserEnv where
  uid : UserId
  su : Bool
  deriving DecidableEq, Repr

namespace UserEnv

/-- The superuser is always in superuser mode. -/
def new (uid : UserId) (su : Bool) : UserEnv := ⟨uid, su || uid = superuserId⟩

/-- `env(user=…, su=…)`: with a user it leaves superuser mode, if nothing is said about it. -/
def call (env : UserEnv) (user : Option UserId) (su : Option Bool) : UserEnv :=
  new (user.getD env.uid) (su.getD (user.isNone && env.su))

def withUser (env : UserEnv) (uid : UserId) : UserEnv := env.call (some uid) (some false)

/-- The environment of the worker's transactions. -/
def worker : UserEnv := new superuserId true

end UserEnv

/-- A recordset, with the environment that it is bound to. -/
structure BoundRecordset where
  model : String
  ids : List ℕ
  env : UserEnv
  deriving DecidableEq, Repr

def BoundRecordset.withEnv (r : BoundRecordset) (env : UserEnv) : BoundRecordset :=
  { r with env := env }

def taskRecords (ids : List TaskId) (env : UserEnv) : BoundRecordset :=
  ⟨"generic.task.queue.task", ids, env⟩

/-! ## Calls of task code -/

/-- What `on_failure` is told: an exception that task code has raised, with the records that it
carries; that children have failed; or that the execution was lost. -/
inductive HookExc where
  | raised (records : List BoundRecordset)
  | childTasksFailedError (failedChildren : BoundRecordset)
  | taskAbandonedError (error : String)
  deriving DecidableEq, Repr

inductive HookArg where
  | recordset (r : BoundRecordset)
  | exc (e : HookExc)
  | value (v : Option Json)
  deriving DecidableEq, Repr

/-- A call of `execute` or of a hook: what it is handed. -/
structure TaskCall where
  name : String
  env : UserEnv
  task : BoundRecordset
  args : List HookArg
  deriving DecidableEq, Repr

def HookExc.carried : HookExc → List BoundRecordset
  | .raised records => records
  | .childTasksFailedError failedChildren => [failedChildren]
  | .taskAbandonedError _ => []

def HookArg.records : HookArg → List BoundRecordset
  | .recordset r => [r]
  | .exc e => e.carried
  | .value _ => []

def TaskCall.records (c : TaskCall) : List BoundRecordset :=
  c.task :: c.args.flatMap HookArg.records

/-- Records among the arguments are rebound. -/
def HookArg.rebind (env : UserEnv) : HookArg → HookArg
  | .recordset r => .recordset (r.withEnv env)
  | arg => arg

/-- `execute()` in `_task_thread_target`, with `_creator_env`. -/
def executeCall (t : Task) : TaskCall :=
  let userEnv := UserEnv.worker.call (some t.createUid) none
  ⟨"execute", userEnv, (taskRecords [t.id] .worker).withEnv userEnv, []⟩

/-- `_run_task_type_hook` on a record of the worker. -/
def hookCall (t : Task) (hookName : String) (extraArgs : List HookArg) : TaskCall :=
  let hookEnv := UserEnv.worker.call (some t.createUid) none
  ⟨hookName, hookEnv, (taskRecords [t.id] .worker).withEnv hookEnv,
    extraArgs.map (HookArg.rebind hookEnv)⟩

/-! ## The steps -/

/-- Tasks are created, task code is called, and anything else happens to the tasks. `createChildren`
is also `spawn_children`, in the environment of the parent's record; `failure` is an exception of
`execute()` or of `on_all_children_done()`. -/
inductive TreeEv where
  | createTask (env : UserEnv) (v : TaskVals)
  | createTasks (env : UserEnv) (vs : List TaskVals)
  | createChildren (env : UserEnv) (E : Env) (parent : TaskId) (specs : List TaskSpec)
  | execute (id : TaskId)
  | success (id : TaskId) (result : BoundRecordset ⊕ Option Json)
  | failure (id : TaskId) (records : List BoundRecordset)
  | lost (id : TaskId) (error : String)
  | childrenFailed (id : TaskId)
  | childDone (id : TaskId)
  | allChildrenDone (id : TaskId)
  | elsewhere (T : Table)

/-- `create`: the rows belong to the user of the environment. -/
def createAs (env : UserEnv) (vs : List TaskVals) (T : Table) : Table :=
  T.insert (vs.map fun v => { v with createUid := env.uid }.create)

/-- The environment in which `create_children` creates. -/
def childrenEnv (env : UserEnv) (parent : Task) : UserEnv :=
  if parent.createUid ≠ env.uid then env.withUser parent.createUid else env

/-- What else happens: tasks change or are deleted, but not their parents and creators. -/
def KeepsCreators (T T' : Table) : Prop :=
  ∀ t' ∈ T'.rows, ∃ t ∈ T.rows, t.id = t'.id ∧ t.parentId = t'.parentId ∧ t.createUid = t'.createUid

instance (T T' : Table) : Decidable (KeepsCreators T T') := by
  unfold KeepsCreators; infer_instance

/-- `_check_waiting_parent` fails the parent because of its children. -/
def failsByChildren (T : Table) (p : Task) : Bool :=
  p.state = .waiting && !(T.children p.id).any (·.state ∈ activeStates) &&
    (T.children p.id).any nonRetriable

namespace Tree

def step (T : Table) : TreeEv → Option Table
  | .createTask env v =>
    if v.parentId.all fun p => (T.get p).isSome then some (createAs env [v] T) else none
  | .createTasks env vs => if vs.all (·.parentId = none) then some (createAs env vs T) else none
  | .createChildren env E parent specs => (T.get parent).bind fun p =>
    if specs.all (·.typeCode ∈ E.activeTypes) then
      some (createAs (childrenEnv env p)
        (specs.zipIdx.map fun q => childVals E p specs.length q.2 q.1) T)
    else none
  | .execute id => (T.get id).map fun _ => T
  | .success id _ => (T.get id).map fun _ => T
  -- task code has no other records than those of its user, be it in superuser mode
  | .failure id records => (T.get id).bind fun t =>
    if records.all (·.env.uid = t.createUid) then some T else none
  | .lost id _ => (T.get id).map fun _ => T
  | .childrenFailed id => (T.get id).bind fun p => if failsByChildren T p then some T else none
  | .childDone id => (T.get id).bind fun c => (c.parentId.bind T.get).bind fun p =>
    if p.state = .waiting then some T else none
  | .allChildrenDone id => (T.get id).bind fun p => if p.state = .waiting then some T else none
  | .elsewhere T' => if KeepsCreators T T' then some T' else none

def calls (T : Table) : TreeEv → List TaskCall
  | .execute id => (T.get id).toList.map executeCall
  | .success id result => (T.get id).toList.map fun t =>
      hookCall t "on_success" [result.elim .recordset .value]
  | .failure id records =>
    (T.get id).toList.map fun t => hookCall t "on_failure" [.exc (.raised records)]
  | .lost id error =>
    (T.get id).toList.map fun t => hookCall t "on_failure" [.exc (.taskAbandonedError error)]
  | .childrenFailed id => (T.get id).toList.map fun p => hookCall p "on_failure"
      [.exc (.childTasksFailedError
        (taskRecords (((T.children id).filter nonRetriable).map Task.id) .worker))]
  | .childDone id => ((T.get id).bind fun c => c.parentId.bind T.get).toList.map fun p =>
      hookCall p "on_child_done" [.recordset (taskRecords [id] .worker)]
  | .allChildrenDone id => (T.get id).toList.map fun p => hookCall p "on_all_children_done" []
  | _ => []

/-- A task with a `parent_id` is created by the parent's creator; no task of an ordinary user fails
because of its children. -/
def Lawful (T : Table) : TreeEv → Prop
  | .createTask env v => ∀ p ∈ v.parentId, ∀ t ∈ T.get p, env.uid = t.createUid
  | .childrenFailed id => ∀ t ∈ T.get id, t.createUid = superuserId
  | _ => True

instance (T : Table) (ev : TreeEv) : Decidable (Lawful T ev) := by
  cases ev <;> unfold Lawful <;> infer_instance

end Tree

/-- The call runs as the user, not in superuser mode unless that is the superuser, and every record
that it is handed is bound to the user of its environment. -/
structure TaskCall.Confined (uid : UserId) (c : TaskCall) : Prop where
  user : c.env.uid = uid
  su : uid ≠ superuserId → c.env.su = false
  bound : ∀ r ∈ c.records, r.env.uid = c.env.uid

/-! ## What is handed over -/

section Calls

variable {t : Task}

theorem call_user (env : UserEnv) (uid : UserId) :
    env.call (some uid) none = ⟨uid, uid = superuserId⟩ := by
  simp [UserEnv.call, UserEnv.new]

theorem childrenEnv_uid (env : UserEnv) (parent : Task) :
    (childrenEnv env parent).uid = parent.createUid := by
  unfold childrenEnv
  split_ifs with h
  · rfl
  · exact (not_not.1 h).symm

theorem executeCall_confined : (executeCall t).Confined t.createUid where
  user := rfl
  su h := by
    show (UserEnv.worker.call (some t.createUid) none).su = false
    rw [call_user]
    exact decide_eq_false h
  bound r hr := by
    obtain rfl := List.mem_singleton.1 hr
    rfl

/-- Only what an exception carries is left as it was. -/
theorem hookCall_confined_iff {name : String} {args : List HookArg} :
    (hookCall t name args).Confined t.createUid ↔
      ∀ e, .exc e ∈ args → ∀ r ∈ e.carried, r.env.uid = t.createUid := by
  constructor
  · intro h e he r hr
    refine h.bound r (List.mem_cons_of_mem _ (List.mem_flatMap.2 ⟨.exc e, ?_, hr⟩))
    exact List.mem_map.2 ⟨.exc e, he, rfl⟩
  · intro h
    refine ⟨rfl, fun hne => ?_, fun r hr => ?_⟩
    · show (UserEnv.worker.call (some t.createUid) none).su = false
      rw [call_user]
      exact decide_eq_false hne
    · rcases List.mem_cons.1 hr with rfl | hr
      · rfl
      obtain ⟨arg', harg', hr⟩ := List.mem_flatMap.1 hr
      obtain ⟨arg, harg, rfl⟩ := List.mem_map.1 harg'
      cases arg with
      | recordset r' =>
        obtain rfl := List.mem_singleton.1 hr
        rfl
      | exc e => exact h e harg r hr
      | value v => cases hr

theorem hookCall_confined {name : String} {args : List HookArg} (h : ∀ e, .exc e ∉ args) :
    (hookCall t name args).Confined t.createUid :=
  hookCall_confined_iff.2 fun e he => absurd he (h e)

theorem failure_confined_iff {e : HookExc} :
    (hookCall t "on_failure" [.exc e]).Confined t.createUid ↔
      ∀ r ∈ e.carried, r.env.uid = t.createUid := by
  rw [hookCall_confined_iff]
  refine ⟨fun h => h e List.mem_cons_self, fun h e' he' => ?_⟩
  obtain rfl := HookArg.exc.inj (List.mem_singleton.1 he')
  exact h

/-- The failed children are bound to the superuser. -/
theorem childrenFailed_confined_iff {ids : List TaskId} :
    (hookCall t "on_failure" [.exc (.childTasksFailedError (taskRecords ids .worker))]).Confined
      t.createUid ↔ t.createUid = superuserId := by
  rw [failure_confined_iff]
  refine ⟨fun h => (h _ List.mem_cons_self).symm, fun h r hr => ?_⟩
  obtain rfl := List.mem_singleton.1 hr
  exact h.symm

end Calls

/-! ## The trees -/

/-- A child belongs to the creator of its parent. -/
def Inherits (T : Table) : Prop :=
  ∀ t ∈ T.rows, ∀ a ∈ T.rows, t.parentId = some a.id → t.createUid = a.createUid

section Trees

variable {T T' : Table} {ev : TreeEv} {env : UserEnv} {vs : List TaskVals}

theorem Inherits.createAs (h : Inherits T)
    (hvs : ∀ v ∈ vs, ∀ p, v.parentId = some p → ∃ a, T.get p = some a ∧ env.uid = a.createUid) :
    Inherits (createAs env vs T) := by
  intro t ht a ha hpar
  rcases Table.mem_insert.1 ht with ht | ⟨q, hq, rfl⟩
  · rcases Table.mem_insert.1 ha with ha | ⟨r, -, rfl⟩
    · exact h t ht a ha hpar
    · -- no task names the next id as its parent
      have hlt := Table.parent_lt_nextId ht hpar
      exact absurd hlt (Nat.not_lt_of_le (Nat.le_add_right _ _))
  · obtain ⟨v, hv, hvq⟩ := List.mem_map.1 (List.fst_mem_of_mem_zipIdx hq)
    have hvpar : v.parentId = some a.id := by rw [← hpar, ← hvq]; rfl
    have huid : q.1.createUid = env.uid := by rw [← hvq]; rfl
    obtain ⟨b, hb, hbu⟩ := hvs v hv a.id hvpar
    show q.1.createUid = a.createUid
    rw [huid, hbu]
    rcases Table.mem_insert.1 ha with ha | ⟨r, -, rfl⟩
    · rw [Option.some.inj (hb.symm.trans (Table.mem_iff_get.1 ha))]
    · have hlt := Table.lt_nextId (Table.get_eq_some_iff.1 hb).1
      rw [(Table.get_eq_some_iff.1 hb).2] at hlt
      exact absurd hlt (Nat.not_lt_of_le (Nat.le_add_right _ _))

theorem map_same {α : Type} {o : Option α} (h : o.map (fun _ => T) = some T') : T = T' := by
  obtain ⟨-, -, h⟩ := Option.map_eq_some_iff.1 h
  exact h

theorem guard_same {α : Type} {o : Option α} {P : α → Prop} [DecidablePred P]
    (h : (o.bind fun a => if P a then some T else none) = some T') : T = T' := by
  obtain ⟨a, -, h⟩ := Option.bind_eq_some_iff.1 h
  split_ifs at h
  exact Option.some.inj h

/-- **Step lemma.** A child is created in the name of its parent's creator. -/
theorem Inherits.step (h : Inherits T) (hok : Tree.Lawful T ev) (hs : Tree.step T ev = some T') :
    Inherits T' := by
  cases ev with
  | createTask env v =>
    simp only [Tree.step, Option.ite_none_right_eq_some] at hs
    obtain ⟨hp, hs⟩ := hs
    obtain rfl := Option.some.inj hs
    refine h.createAs fun v' hv' p hvp => ?_
    obtain rfl := List.mem_singleton.1 hv'
    rw [hvp] at hp
    obtain ⟨a, ha⟩ := Option.isSome_iff_exists.1 hp
    exact ⟨a, ha, hok p hvp a ha⟩
  | createTasks env vs =>
    simp only [Tree.step, Option.ite_none_right_eq_some] at hs
    obtain ⟨hp, hs⟩ := hs
    obtain rfl := Option.some.inj hs
    refine h.createAs fun v hv p hvp => ?_
    have hnone := List.all_eq_true.1 hp v hv
    rw [hvp] at hnone
    simp at hnone
  | createChildren env E parent specs =>
    obtain ⟨p, hp, hs⟩ := Option.bind_eq_some_iff.1 hs
    simp only [Option.ite_none_right_eq_some] at hs
    obtain rfl := Option.some.inj hs.2
    refine h.createAs fun v hv q hvq => ⟨p, ?_, childrenEnv_uid env p⟩
    obtain ⟨r, -, rfl⟩ := List.mem_map.1 hv
    obtain rfl := Option.some.inj hvq
    rw [(Table.get_eq_some_iff.1 hp).2]
    exact hp
  | elsewhere T₁ =>
    simp only [Tree.step, Option.ite_none_right_eq_some] at hs
    obtain ⟨hk, hs⟩ := hs
    obtain rfl := Option.some.inj hs
    intro t' ht' a' ha' hpar
    obtain ⟨t, ht, -, hp, hu⟩ := hk t' ht'
    obtain ⟨a, ha, hid, -, hua⟩ := hk a' ha'
    rw [← hu, ← hua]
    exact h t ht a ha (hp.trans (hid ▸ hpar))
  | execute id => exact map_same hs ▸ h
  | success id result => exact map_same hs ▸ h
  | lost id error => exact map_same hs ▸ h
  | failure id records => exact guard_same hs ▸ h
  | childrenFailed id => exact guard_same hs ▸ h
  | allChildrenDone id => exact guard_same hs ▸ h
  | childDone id =>
    obtain ⟨c, -, hs⟩ := Option.bind_eq_some_iff.1 hs
    exact guard_same hs ▸ h

/-- **Calls.** Every call of task code is about one task, and confined to its creator. -/
theorem calls_confined (hok : Tree.Lawful T ev) (hs : Tree.step T ev = some T') {c : TaskCall}
    (hc : c ∈ Tree.calls T ev) : ∃ t ∈ T.rows, c.task.ids = [t.id] ∧ c.Confined t.createUid := by
  have one : ∀ {o : Option Task} {f : Task → TaskCall}, c ∈ o.toList.map f →
      ∃ t, o = some t ∧ c = f t := by
    intro o f hm
    obtain ⟨t, ht, rfl⟩ := List.mem_map.1 hm
    exact ⟨t, Option.mem_toList.1 ht, rfl⟩
  have mem : ∀ {id : TaskId} {t : Task}, T.get id = some t → t ∈ T.rows := fun h =>
    (Table.get_eq_some_iff.1 h).1
  cases ev with
  | execute id =>
    obtain ⟨t, ht, rfl⟩ := one hc
    exact ⟨t, mem ht, rfl, executeCall_confined⟩
  | success id result =>
    obtain ⟨t, ht, rfl⟩ := one hc
    refine ⟨t, mem ht, rfl, hookCall_confined fun e he => ?_⟩
    have he := List.mem_singleton.1 he
    cases result <;> cases he
  | failure id records =>
    obtain ⟨t, ht, rfl⟩ := one hc
    simp only [Tree.step, ht, Option.bind_some, Option.ite_none_right_eq_some] at hs
    refine ⟨t, mem ht, rfl, failure_confined_iff.2 fun r hr => ?_⟩
    exact of_decide_eq_true (List.all_eq_true.1 hs.1 r hr)
  | lost id error =>
    obtain ⟨t, ht, rfl⟩ := one hc
    exact ⟨t, mem ht, rfl, failure_confined_iff.2 nofun⟩
  | childrenFailed id =>
    obtain ⟨t, ht, rfl⟩ := one hc
    exact ⟨t, mem ht, rfl, childrenFailed_confined_iff.2 (hok t ht)⟩
  | childDone id =>
    obtain ⟨p, hp, rfl⟩ := one hc
    obtain ⟨c, -, hp⟩ := Option.bind_eq_some_iff.1 hp
    obtain ⟨q, -, hp⟩ := Option.bind_eq_some_iff.1 hp
    exact ⟨p, mem hp, rfl, hookCall_confined (by simp)⟩
  | allChildrenDone id =>
    obtain ⟨p, hp, rfl⟩ := one hc
    exact ⟨p, mem hp, rfl, hookCall_confined nofun⟩
  | _ => cases hc

theorem Inherits.below (h : Inherits T) {a d : Task} (ha : a ∈ T.rows) (hd : d ∈ T.rows)
    (hb : Below T.rows a.id d.id) : d.createUid = a.createUid := by
  have key : ∀ k, Below T.rows a.id k → ∀ t ∈ T.rows, t.id = k → t.createUid = a.createUid := by
    intro k hk
    induction hk with
    | single hc =>
      intro t ht hid
      obtain ⟨u, hu, huid, hpar⟩ := hc
      obtain rfl := Table.eq_of_id hu ht (huid.trans hid.symm)
      exact h u hu a ha hpar
    | tail hb hc ih =>
      intro t ht hid
      obtain ⟨u, hu, huid, hpar⟩ := hc
      obtain rfl := Table.eq_of_id hu ht (huid.trans hid.symm)
      obtain ⟨b, hbm, rfl⟩ := Forest.Below.mem Task.id Task.parentId hb
      exact (h u hu b hbm hpar).trans (ih b hbm rfl)
  exact key d.id hb d hd rfl

/-- What `create_children` inserts is what the model of the waiting parents inserts. -/
theorem createAs_children {E : Env} {p : Task} {specs : List TaskSpec}
    (h : createChildren E p specs T = .ok T') :
    createAs (childrenEnv env p)
      (specs.zipIdx.map fun q => childVals E p specs.length q.2 q.1) T = T' := by
  unfold createChildren at h
  split at h
  · cases h
  · obtain rfl := Except.ok.inj h
    unfold createAs
    rw [List.map_map]
    refine congrArg T.insert (List.map_congr_left fun q _ => ?_)
    show TaskVals.create { childVals E p specs.length q.2 q.1 with
      createUid := (childrenEnv env p).uid } = _
    rw [childrenEnv_uid]
    rfl

end Trees

/-- **Least privilege.** In every run whose steps are lawful, a descendant belongs to the creator of
its root, and every call of task code is confined to that user. -/
theorem least_privilege {T : Table} {es : List TreeEv}
    (hp : Path Tree.step Tree.Lawful Table.empty es T) :
    (∀ a ∈ T.rows, ∀ d ∈ T.rows, Below T.rows a.id d.id → d.createUid = a.createUid) ∧
      ∀ T₁ ev T₂, Takes Tree.step Table.empty es T₁ ev T₂ → ∀ c ∈ Tree.calls T₁ ev,
        ∃ t ∈ T₁.rows, c.task.ids = [t.id] ∧ c.Confined t.createUid ∧
          ∀ a ∈ T₁.rows, Below T₁.rows a.id t.id → c.Confined a.createUid := by
  have hinv : ∀ {T' es'}, Path Tree.step Tree.Lawful Table.empty es' T' → Inherits T' :=
    fun h => h.inv (fun _ _ _ hi hok hs => hi.step hok hs) fun t ht => absurd ht List.not_mem_nil
  refine ⟨fun a ha d hd hb => (hinv hp).below ha hd hb, fun T₁ ev T₂ ht c hc => ?_⟩
  obtain ⟨⟨pre, hpre⟩, hok, hs⟩ := hp.takes ht
  obtain ⟨t, htm, hid, hconf⟩ := calls_confined hok hs hc
  refine ⟨t, htm, hid, hconf, fun a ha hb => ?_⟩
  rw [← (hinv hpre).below ha htm hb]
  exact hconf

def salesUser : UserEnv := .new 7 false

def treeEnv : Env := { reg := [], activeTypes := ["batch", "leaf"], now := 20 }

/-- The user creates a task, whose `execute` spawns two children; the worker's poll loop adds a
third one. -/
def batchTree : List TreeEv := [
  .createTask salesUser { id := 0, name := "batch", typeCode := "batch", dateCreated := 10
                          createUid := 0 },
  .execute 1,
  .createChildren (.new 7 true) treeEnv 1 [{ typeCode := "leaf" }, { typeCode := "leaf" }],
  .createChildren .worker treeEnv 1 [{ typeCode := "leaf" }]]

/-- The tree once the root waits and its children are done. -/
def batchWaits (T : Table) : Table :=
  (T.updateAll [2, 3, 4] fun t => { t with state := .done }).update 1 fun t =>
    { t with state := .waiting }

/-- The root is notified of a child. -/
def batchNotified : List TreeEv :=
  batchTree ++ [.elsewhere (batchWaits (reached Tree.step anyStep .empty batchTree)), .childDone 4]

theorem batchNotified_confined : ∃ T, Path Tree.step Tree.Lawful .empty batchNotified T ∧
    T.rows.map (fun t => (t.id, t.createUid)) = [(1, 7), (2, 7), (3, 7), (4, 7)] ∧
    (∀ a ∈ T.rows, ∀ d ∈ T.rows, Below T.rows a.id d.id → d.createUid = a.createUid) ∧
    Tree.calls T (.childDone 4) = [⟨"on_child_done", ⟨7, false⟩, taskRecords [1] ⟨7, false⟩,
      [.recordset (taskRecords [4] ⟨7, false⟩)]⟩] := by
  have hp : Path Tree.step Tree.Lawful .empty batchNotified (reached _ _ _ _) :=
    path_reached (by decide +kernel)
  exact ⟨_, hp, by decide +kernel, (least_privilege hp).1, by decide +kernel⟩

/-- The third child has failed for good. -/
def batchFails (T : Table) : Table :=
  (T.updateAll [2, 3] fun t => { t with state := .done }).updateAll [1, 4] fun t =>
    { t with state := if t.id = 1 then .waiting else .failed }

/-- The root is about to fail because of its child. -/
def batchFailing : List TreeEv :=
  batchTree ++ [.elsewhere (batchFails (reached Tree.step anyStep .empty batchTree))]

/-- `on_failure` of a user's task gets a record that is bound to the superuser. -/
theorem superuser_children : ¬ ∀ T es, Path Tree.step anyStep Table.empty es T →
    (∀ a ∈ T.rows, ∀ d ∈ T.rows, Below T.rows a.id d.id → d.createUid = a.createUid) ∧
      ∀ T₁ ev T₂, Takes Tree.step Table.empty es T₁ ev T₂ → ∀ c ∈ Tree.calls T₁ ev,
        ∃ t ∈ T₁.rows, c.task.ids = [t.id] ∧ c.Confined t.createUid ∧
          ∀ a ∈ T₁.rows, Below T₁.rows a.id t.id → c.Confined a.createUid := by
  intro h
  have hrun : (checkedRun Tree.step anyStep .empty
      (batchFailing ++ [.childrenFailed 1])).isSome = true := by decide +kernel
  have hpre : Path Tree.step anyStep .empty batchFailing (reached _ _ _ _) :=
    path_reached (by decide +kernel)
  have ht : Takes Tree.step .empty (batchFailing ++ [.childrenFailed 1])
      (reached Tree.step anyStep .empty batchFailing) (.childrenFailed 1) (reached _ _ _ _) :=
    ⟨batchFailing, [], rfl, hpre, step_reached hrun⟩
  have hcall : ⟨"on_failure", ⟨7, false⟩, taskRecords [1] ⟨7, false⟩,
      [.exc (.childTasksFailedError (taskRecords [4] .worker))]⟩ ∈
        Tree.calls (reached Tree.step anyStep .empty batchFailing) (.childrenFailed 1) := by
    decide +kernel
  obtain ⟨t, -, -, hconf, -⟩ := (h _ _ (path_reached hrun)).2 _ _ _ ht _ hcall
  have hbound := hconf.bound (taskRecords [4] .worker)
    (List.mem_cons_of_mem _ List.mem_cons_self)
  exact absurd hbound (by decide)

end GenericTaskQueue
