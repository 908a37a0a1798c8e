import GenericBackground.TaskQueue.DroppedWrites
import GenericBackground.TaskQueue.Enqueue
import GenericBackground.TaskQueue.RetryBudget

/-!
# Planned method calls

`_g_task_queue__plan` of any model, and `task.type.model.method`, the task type that makes the
planned call. The call is stored as the parameters of a task and comes back when a worker executes
the task: `execute` reads the parameters, refuses what is not a public method with the mark of
`@background_task`, and calls it on the records.

In every run in which the task is not edited, whatever executes it reads the parameters that were
stored, so the only call that it can make is the planned one (`planned_call`). A task is executed
once for each time that it has entered `running`, so the retry budget bounds the calls: a thread
that has started and has not begun to execute is an execution still to come.
-/

namespace GenericTaskQueue

open RowStore Lts

/-! ## Parameters -/

/-- JSON objects in a column: what an object is stored as, and the object in a stored value, `none`
for any other value. The order of the keys is the column's own. -/
structure JsonObjects where
  dump : List (String × Json) → Json
  load : Json → Option (List (String × Json))

/-- The object comes back from the column with the values of its keys. -/
def JsonObjects.Keeps (J : JsonObjects) (d : List (String × Json)) : Prop :=
  ∃ d', J.load (J.dump d) = some d' ∧ ∀ key, d'.lookup key = d.lookup key

/-- A call `env[model].browse(record_ids).method(**kwargs)`. -/
structure MethodCall where
  model : String
  method : String
  recordIds : List ℤ
  kwargs : Json
  deriving DecidableEq, Repr

/-! ## `_g_task_queue__plan` -/

structure PlanArgs where
  method : String
  recordIds : Option (List ℤ) := none
  name : Option String := none
  channel : Channel := "default"
  priority : ℤ := 5
  timeout : ℤ := 0
  kwargs : List (String × Json) := []
  deriving DecidableEq, Repr

/-- `ModelMethodTaskType._name` -/
def modelMethodCode : TypeCode := "task.type.model.method"

/-- `ModelMethodTaskType` -/
def modelMethodType : TaskType where
  singleton := false
  retryPolicy := .canonical .noRetry
  maxRetries := 0

namespace PlanArgs

/-- The records that the method is called on: those of `self` if none are given. -/
def ids (p : PlanArgs) (selfIds : List ℤ) : List ℤ := p.recordIds.getD selfIds

/-- The name of the task: by default the call, with the first five ids. -/
def taskName (p : PlanArgs) (model : String) (selfIds : List ℤ) : String :=
  p.name.getD (model ++ "." ++ p.method ++ "(" ++
    String.intercalate ", " (((p.ids selfIds).take 5).map toString) ++ ")" ++
    if 5 < (p.ids selfIds).length then "..." else "")

def params (J : JsonObjects) (p : PlanArgs) (model : String) (selfIds : List ℤ) :
    List (String × Json) :=
  [("model", .str model), ("method", .str p.method), ("record_ids", .ints (p.ids selfIds))] ++
    if p.kwargs ≠ [] then [("kwargs", J.dump p.kwargs)] else []

def call (J : JsonObjects) (p : PlanArgs) (model : String) (selfIds : List ℤ) : MethodCall where
  model := model
  method := p.method
  recordIds := p.ids selfIds
  kwargs := if p.kwargs ≠ [] then J.dump p.kwargs else .text "{}"

end PlanArgs

/-- `_g_task_queue__plan` on the records `selfIds` of a model: the call of `create_task`, and the
warnings that are logged. `func` is the mark of the attribute that the class of the model has under
the method's name, `none` if it has none. -/
def gTaskQueuePlan (J : JsonObjects) (model : String) (selfIds : List ℤ) (func : Option Bool)
    (p : PlanArgs) : CreateArgs × List String :=
  ({ typeCode := modelMethodCode
     name := some (p.taskName model selfIds)
     params := some (J.dump (p.params J model selfIds))
     channel := some p.channel
     priority := p.priority
     timeout := p.timeout },
   if func = some false then ["Method " ++ model ++ "." ++ p.method ++
     " is not decorated with @background_task. Task will fail at execution time."] else [])

/-! ## `ModelMethodTaskType.execute` -/

/-- What an execution finds: the models of the environment, the records that exist, and the mark of
what `getattr` returns on records. A value of a wrong type raises an exception of Python's
(`typeError`, with the place of the value); ids that are not a list of integers are for `browse` and
`exists` to take or to refuse (`otherIds`). -/
structure Odoo where
  models : List String
  stored : String → ℤ → Bool
  getattr : String → List ℤ → String → Except Exc Bool
  otherIds : String → Json → Except Exc (List ℤ)
  typeError : String → Json → Exc
  setText : List ℤ → String
  otherIds_stored : ∀ model v ids, otherIds model v = .ok ids → ∀ i ∈ ids, stored model i = true

def getItem (params : List (String × Json)) (key : String) : Except Exc Json :=
  match params.lookup key with
  | some v => .ok v
  | none => .error (.other ("'" ++ key ++ "'"))

namespace Odoo

def isPrivate (method : String) : Bool := method.toList.head? = some '_'

def paramsOf (O : Odoo) (J : JsonObjects) (taskParams : Json) :
    Except Exc (List (String × Json)) :=
  match J.load taskParams with
  | some params => .ok params
  | none => .error (O.typeError "task_params" taskParams)

def methodName (O : Odoo) : Json → Except Exc String
  | .str method =>
    if isPrivate method then
      .error (.other ("Calling private methods is not allowed: " ++ method))
    else .ok method
  | v => .error (O.typeError "method" v)

def modelName (O : Odoo) : Json → Except Exc String
  | .str model =>
    if model ∉ O.models then .error (.other ("Model " ++ model ++ " is not available"))
    else .ok model
  | .null => .error (.other "Model None is not available")
  | .int n => .error (.other ("Model " ++ toString n ++ " is not available"))
  | v => .error (O.typeError "model" v)

/-- `browse`, and the check that all records exist. -/
def records (O : Odoo) (model : String) : Json → Except Exc (List ℤ)
  | .ints ids =>
    let existing := ids.filter (O.stored model)
    if ids ≠ [] ∧ existing.length ≠ ids.length then
      .error (.other ("Records not found in " ++ model ++ ": " ++
        O.setText (ids.filter (· ∉ existing)).dedup))
    else .ok ids
  | .null => .ok []
  | .int 0 => .ok []
  | .str "" => .ok []
  | .text "{}" => .ok []
  | v => O.otherIds model v

/-- `method(**kwargs)` takes a mapping. -/
def keywords (O : Odoo) (J : JsonObjects) : Option Json → Except Exc Json
  | none => .ok (.text "{}")
  | some v => if (J.load v).isSome then .ok v else .error (O.typeError "kwargs" v)

/-- `execute`: the call that is made, or the exception. -/
def execute (O : Odoo) (J : JsonObjects) (taskParams : Json) : Except Exc MethodCall := do
  let params ← O.paramsOf J taskParams
  let model ← getItem params "model"
  let method ← getItem params "method"
  let method ← O.methodName method
  let model ← O.modelName model
  let ids ← O.records model ((params.lookup "record_ids").getD (.ints []))
  let marked ← O.getattr model ids method
  if marked then
    let kwargs ← O.keywords J (params.lookup "kwargs")
    return ⟨model, method, ids, kwargs⟩
  else
    .error (.other ("Method " ++ model ++ "." ++ method ++
      " is not decorated with @background_task"))

/-- The calls that may be made: of a public method, marked by its author, on a model and on records
that are there. -/
structure Admits (O : Odoo) (c : MethodCall) : Prop where
  isPublic : isPrivate c.method = false
  available : c.model ∈ O.models
  found : ∀ i ∈ c.recordIds, O.stored c.model i = true
  marked : O.getattr c.model c.recordIds c.method = .ok true

end Odoo

/-! ## What an execution may call -/

variable {J : JsonObjects} {O : Odoo} {c : MethodCall}

theorem getItem_ok {params : List (String × Json)} {key : String} {v : Json} :
    getItem params key = .ok v ↔ params.lookup key = some v := by
  unfold getItem
  cases params.lookup key <;> simp

namespace Odoo

theorem paramsOf_ok {v : Json} {params : List (String × Json)} :
    O.paramsOf J v = .ok params ↔ J.load v = some params := by
  unfold paramsOf
  cases J.load v <;> simp

theorem methodName_ok {v : Json} {method : String} :
    O.methodName v = .ok method ↔ v = .str method ∧ isPrivate method = false := by
  cases v with
  | str m =>
    unfold methodName
    dsimp only
    by_cases h : isPrivate m = true
    · rw [if_pos h, Json.str.injEq]
      refine ⟨(fun he => by cases he), ?_⟩
      rintro ⟨rfl, hm⟩
      rw [h] at hm
      cases hm
    · rw [if_neg h, Except.ok.injEq, Json.str.injEq]
      exact ⟨fun heq => ⟨heq, heq ▸ Bool.eq_false_iff.2 h⟩, fun heq => heq.1⟩
  | _ => simp [methodName]

theorem modelName_ok {v : Json} {model : String} :
    O.modelName v = .ok model ↔ v = .str model ∧ model ∈ O.models := by
  cases v with
  | str m =>
    unfold modelName
    dsimp only
    by_cases h : m ∈ O.models
    · rw [if_neg (not_not.2 h), Except.ok.injEq, Json.str.injEq]
      exact ⟨fun heq => ⟨heq, heq ▸ h⟩, fun heq => heq.1⟩
    · rw [if_pos h, Json.str.injEq]
      refine ⟨(fun he => by cases he), ?_⟩
      rintro ⟨rfl, hm⟩
      exact absurd hm h
  | _ => simp [modelName]

theorem filter_length_ne {A : Type*} {f : A → Bool} {l : List A} :
    l ≠ [] ∧ (l.filter f).length ≠ l.length ↔ ∃ a ∈ l, f a = false := by
  rw [and_iff_right_of_imp (by rintro h rfl; exact h rfl), ne_eq, List.length_filter_eq_length_iff]
  simp

theorem records_ints {model : String} {l ids : List ℤ} :
    O.records model (.ints l) = .ok ids ↔ ids = l ∧ ∀ i ∈ l, O.stored model i = true := by
  unfold records
  dsimp only
  split_ifs with h
  · obtain ⟨i, hi, hf⟩ := filter_length_ne.1 h
    simp only [false_iff, not_and]
    exact fun _ hall => by simp [hall i hi] at hf
  · rw [filter_length_ne] at h
    simp only [Except.ok.injEq]
    refine ⟨fun heq => ⟨heq.symm, fun i hi => ?_⟩, fun heq => heq.1.symm⟩
    exact Bool.not_eq_false _ ▸ fun hf => h ⟨i, hi, hf⟩

theorem records_stored {model : String} {v : Json} {ids : List ℤ}
    (h : O.records model v = .ok ids) : ∀ i ∈ ids, O.stored model i = true := by
  unfold records at h
  split at h
  · exact (records_ints.1 h).1 ▸ (records_ints.1 h).2
  · obtain rfl := Except.ok.inj h
    simp
  · obtain rfl := Except.ok.inj h
    simp
  · obtain rfl := Except.ok.inj h
    simp
  · obtain rfl := Except.ok.inj h
    simp
  · exact O.otherIds_stored _ _ _ h

/-- An execution calls a method exactly if it finds each part of the call in the parameters, and the
call is admitted. -/
theorem execute_ok {v : Json} : O.execute J v = .ok c ↔ ∃ params, J.load v = some params ∧
    params.lookup "model" = some (.str c.model) ∧ params.lookup "method" = some (.str c.method) ∧
    O.records c.model ((params.lookup "record_ids").getD (.ints [])) = .ok c.recordIds ∧
    O.keywords J (params.lookup "kwargs") = .ok c.kwargs ∧ O.Admits c := by
  constructor
  · intro h
    obtain ⟨params, hp, h⟩ := bind_ok h
    obtain ⟨vmodel, hvm, h⟩ := bind_ok h
    obtain ⟨vmethod, hvn, h⟩ := bind_ok h
    obtain ⟨method, hn, h⟩ := bind_ok h
    obtain ⟨model, hm, h⟩ := bind_ok h
    obtain ⟨ids, hids, h⟩ := bind_ok h
    obtain ⟨marked, hmark, h⟩ := bind_ok h
    cases marked with
    | false => cases h
    | true =>
      obtain ⟨kwargs, hkw, h⟩ := bind_ok h
      obtain rfl := Except.ok.inj h
      obtain ⟨rfl, hpub⟩ := methodName_ok.1 hn
      obtain ⟨rfl, hav⟩ := modelName_ok.1 hm
      exact ⟨params, paramsOf_ok.1 hp, getItem_ok.1 hvm, getItem_ok.1 hvn, hids, hkw, hpub, hav,
        records_stored hids, hmark⟩
  · rintro ⟨params, hp, hm, hn, hids, hkw, ha⟩
    simp only [execute, paramsOf_ok.2 hp, getItem_ok.2 hm, getItem_ok.2 hn,
      methodName_ok.2 ⟨rfl, ha.isPublic⟩, modelName_ok.2 ⟨rfl, ha.available⟩, hids, ha.marked, hkw,
      bind, Except.bind, if_true, pure, Except.pure]

/-- Whatever parameters a task has, forged ones too: only calls that are admitted are made. -/
theorem execute_admits {v : Json} (h : O.execute J v = .ok c) : O.Admits c := by
  obtain ⟨_, -, -, -, -, -, ha⟩ := execute_ok.1 h
  exact ha

end Odoo

/-! ## What a planned call comes to -/

section Planned

variable {p : PlanArgs} {model : String} {selfIds : List ℤ}

theorem lookup_kwargs : (p.params J model selfIds).lookup "kwargs" =
    if p.kwargs ≠ [] then some (J.dump p.kwargs) else none := by
  unfold PlanArgs.params
  split_ifs <;> rfl

/-- The planned parameters come back from the column, and so does what is passed on. -/
structure PlanArgs.Kept (J : JsonObjects) (p : PlanArgs) (model : String) (selfIds : List ℤ) :
    Prop where
  params : J.Keeps (p.params J model selfIds)
  kwargs : p.kwargs ≠ [] → J.Keeps p.kwargs

/-- Executing the stored parameters makes the planned call, if it is admitted, and no other. -/
theorem execute_planned (hJ : p.Kept J model selfIds) :
    O.execute J (J.dump (p.params J model selfIds)) = .ok c ↔
      c = p.call J model selfIds ∧ O.Admits c := by
  obtain ⟨d, hd, hl⟩ := hJ.params
  have hkw : O.keywords J (d.lookup "kwargs") = .ok (p.call J model selfIds).kwargs := by
    rw [hl, lookup_kwargs]
    unfold PlanArgs.call
    by_cases hk : p.kwargs ≠ []
    · obtain ⟨d', hd', -⟩ := hJ.kwargs hk
      simp only [if_pos hk, Odoo.keywords, hd', Option.isSome_some, if_true]
    · simp only [if_neg hk, Odoo.keywords]
  rw [Odoo.execute_ok]
  constructor
  · rintro ⟨d', hd', hm, hn, hids, hk, ha⟩
    obtain rfl := Option.some.inj (hd.symm.trans hd')
    rw [hl] at hm hn hids
    refine ⟨?_, ha⟩
    have h1 : c.model = model := (Json.str.inj (Option.some.inj hm)).symm
    have h2 : c.method = p.method := (Json.str.inj (Option.some.inj hn)).symm
    have h3 : c.recordIds = p.ids selfIds := (Odoo.records_ints.1 hids).1
    have h4 := Except.ok.inj (hk.symm.trans hkw)
    cases c
    simp only at h1 h2 h3 h4
    rw [h1, h2, h3, h4]
    rfl
  · rintro ⟨rfl, ha⟩
    refine ⟨d, hd, (hl _).trans rfl, (hl _).trans rfl, ?_, hkw, ha⟩
    rw [hl]
    exact Odoo.records_ints.2 ⟨rfl, ha.found⟩

/-- The warning that is logged is true: while the method has no mark, the call is never made. -/
theorem warned_rejected {func : Option Bool} (hJ : p.Kept J model selfIds)
    (hw : (gTaskQueuePlan J model selfIds func p).2 ≠ [])
    (hf : ∀ b, func = some b → O.getattr model (p.ids selfIds) p.method = .ok b) :
    O.execute J (J.dump (p.params J model selfIds)) ≠ .ok c := by
  intro h
  obtain ⟨rfl, ha⟩ := (execute_planned hJ).1 h
  have hfunc : func = some false := by
    by_contra hne
    exact hw (if_neg hne)
  have hmark : O.getattr model (p.ids selfIds) p.method = .ok true := ha.marked
  rw [hf false hfunc] at hmark
  cases hmark

end Planned

/-! ## What is executed in a run -/

variable {reg : Registry} {s s' : Sys} {ev : Ev} {k : TaskId}

/-- The rows that executions of task `k` begin with. -/
def Sys.executions (k : TaskId) (s : Sys) : Ev → List Task
  | .db (.begin (.execute _ id _ _ _)) => if id = k then (s.db.cur.row k).toList else []
  | _ => []

/-- Executed as this user, what a row asks to be called. -/
structure SameCall (t t' : Task) : Prop where
  typeCode : t'.typeCode = t.typeCode
  taskParams : t'.taskParams = t.taskParams
  createUid : t'.createUid = t.createUid

theorem SameCall.trans {t₁ t₂ t₃ : Task} (h : SameCall t₁ t₂) (h' : SameCall t₂ t₃) :
    SameCall t₁ t₃ :=
  ⟨h'.typeCode.trans h.typeCode, h'.taskParams.trans h.taskParams, h'.createUid.trans h.createUid⟩

theorem RowAct.sameCall {a : RowAct} {t t' : Task} (he : a.edits = false)
    (h : a.run reg (some t) = .ok (some t')) : SameCall t t' := by
  change a.onTask reg t = .ok (some t') at h
  cases a with
  | user u =>
    cases u with
    | create v => cases h
    | write v => cases he
    | unlink => cases h
    | actionCancel now => obtain ⟨-, rfl⟩ := checked_some h; exact ⟨rfl, rfl, rfl⟩
    | actionRetry eta =>
      obtain ⟨-, rfl⟩ := actionRetry_ok (ok_of_map_some h)
      exact ⟨rfl, rfl, rfl⟩
    | _ => obtain rfl := Option.some.inj (Except.ok.inj h); exact ⟨rfl, rfl, rfl⟩
  | assign worker uuid =>
    obtain ⟨-, rfl⟩ := claimRow_eq (ok_of_map_some h)
    exact ⟨rfl, rfl, rfl⟩
  | failure runner now exc traceback read =>
    rcases handleFailure_cases (ok_of_map_some h) with ⟨-, _, rfl⟩ | ⟨-, h⟩
    · exact ⟨rfl, rfl, rfl⟩
    · obtain ⟨-, rfl⟩ := checked_ok h
      exact ⟨rfl, rfl, rfl⟩
  | lostExecution runner worker now error =>
    rcases handleLostExecution_cases (ok_of_map_some h) with ⟨-, h⟩ | ⟨-, -, rfl⟩ | ⟨-, -, h⟩
    · obtain ⟨-, rfl⟩ := checked_ok h
      exact ⟨rfl, rfl, rfl⟩
    · exact ⟨rfl, rfl, rfl⟩
    · obtain ⟨-, rfl⟩ := checked_ok h
      exact ⟨rfl, rfl, rfl⟩
  | move now m => cases m <;> obtain ⟨-, rfl⟩ := checked_some h <;> exact ⟨rfl, rfl, rfl⟩
  | start now => obtain ⟨-, rfl⟩ := checked_some h; exact ⟨rfl, rfl, rfl⟩
  | stuck => obtain ⟨-, rfl⟩ := checked_some h; exact ⟨rfl, rfl, rfl⟩
  | waitChildren => obtain ⟨-, rfl⟩ := checked_some h; exact ⟨rfl, rfl, rfl⟩
  | done runner now result => obtain ⟨-, rfl⟩ := checked_some h; exact ⟨rfl, rfl, rfl⟩
  | _ => obtain rfl := Option.some.inj (Except.ok.inj h); exact ⟨rfl, rfl, rfl⟩

theorem Unedited.sameCall {t t' : Task} (hi : Inv reg s) (hd : Drawn s)
    (he : Unedited reg k s ev) (h : s.step reg ev = some s') (ht : s.db.cur.row k = some t)
    (ht' : s'.db.cur.row k = some t') : SameCall t t' := by
  refine Sys.step_task hi hd h (fun _ => ⟨rfl, rfl, rfl⟩) .trans (fun i x hev hx a hm u u' _ hr =>
    RowAct.sameCall (he a ?_) hr) ht ht'
  rw [hev, stmtsOn_commit hx]
  exact hm

/-! ### Executions are paid for by starts -/

/-- The thread has marked task `k` as running, and has yet to execute it. -/
def Thread.toExecute (k : TaskId) (th : Thread) : Bool := th.task = k ∧ th.phase = .started

/-- The executions of task `k` that are still to come. -/
def Sys.toExecute (k : TaskId) (s : Sys) : ℕ := s.threads.countP (Thread.toExecute k)

/-- A thread that is about to execute its task was so before, or its start has just been
committed. -/
theorem Thread.toExecute_after {th : Thread} (h : (th.after s ev).toExecute k = true) :
    th.toExecute k = true ∨ ∃ i x now, ev = .db (.commit i) ∧ s.db.txns i = some x ∧
      x.act = .actionStart th.runner k now := by
  simp only [toExecute, decide_eq_true_eq, (th.after_same s ev).2.1] at h ⊢
  obtain ⟨rfl, hp⟩ := h
  have hch := th.after_change s ev
  generalize th.after s ev = th' at hch hp
  cases hch with
  | same => exact .inl ⟨rfl, hp⟩
  | @begin a => cases a <;> first | exact .inl ⟨rfl, hp⟩ | cases hp
  | @skip _ x => cases hact : x.act <;> rw [hact] at hp <;> exact .inl ⟨rfl, hp⟩
  | @commit i x hx ho =>
    rcases hact : x.act with _ | _ | ⟨r, id, now⟩ | _ | _ | _ | _ | _ | _ | _ | _ <;>
      rw [hact] at hp ho
    case actionStart =>
      obtain ⟨rfl, rfl⟩ := Prod.mk.inj (Option.some.inj ho)
      exact .inr ⟨i, x, now, rfl, hx, hact⟩
    all_goals first | exact .inl ⟨rfl, hp⟩ | cases hp
  | @abort i x hx ho =>
    cases hact : x.act <;> rw [hact] at hp <;> first | exact .inl ⟨rfl, hp⟩ | cases hp
  | kill => cases hp
  | finalize =>
    unfold Thread.finalize at hp
    split_ifs at hp <;> exact .inl ⟨rfl, hp⟩

theorem toExecute_spawned {th : Thread} (hm : th ∈ s.spawns ev) : th.toExecute k = false := by
  obtain ⟨i, x, -, -, hm⟩ := mem_spawns hm
  obtain ⟨c, rank, uuid, -, -, heq⟩ := mem_spawned hm
  rw [heq]
  simp [Thread.toExecute]

theorem Sys.toExecute_step (h : s.step reg ev = some s') :
    s'.toExecute k = s.threads.countP fun th => (th.after s ev).toExecute k := by
  unfold Sys.toExecute
  rw [Sys.step_threads h, List.countP_append, List.countP_map,
    List.countP_eq_zero.2 fun th hm => by rw [toExecute_spawned hm]; exact Bool.false_ne_true,
    Nat.zero_add]
  rfl

theorem start_enters (hi : Inv reg s) {i : ℕ} {x : Txn Tx TaskId Task} {r : RunnerId} {now : ℕ}
    (h : s.step reg (.db (.commit i)) = some s') (hx : s.db.txns i = some x)
    (hact : x.act = .actionStart r k now) : s.entersRunning reg k (.db (.commit i)) = 1 := by
  obtain ⟨t', ht', hrun'⟩ := started_row hi h hx hact
  obtain ⟨y, hy, hn, hstep⟩ := Sys.step_commit h
  obtain rfl := Option.some.inj (hx.symm.trans hy)
  obtain ⟨b, hrun⟩ := commit_row hi.wf hstep hx (start_locked hi hx hact hn)
  rw [show x.act.acts reg x.snap x.locked k = [.start now] by
    rw [hact]; simp [Tx.acts, Tx.stmts]] at hrun
  have hne : (s.db.cur.row k).map Task.state ≠ some .running := by
    rcases hrow : s.db.cur.row k with _ | t
    · simp
    · rw [hrow] at hrun
      rw [Option.map_some, (start_exec hrun ht').1]
      decide
  unfold Sys.entersRunning
  rw [if_pos ⟨hne, by rw [h, Option.bind_some, ht', Option.map_some, hrun']⟩]

theorem countP_lt_countP {A : Type*} {p q : A → Bool} {l : List A} {b : A} (hb : b ∈ l)
    (hp : p b = true) (hq : q b = false) (h : ∀ a ∈ l, q a = true → p a = true) :
    l.countP q < l.countP p := by
  have hsame : (l.filter q).countP p = l.countP q := by
    rw [List.countP_filter]
    refine List.countP_congr fun a ha => ?_
    rw [Bool.and_eq_true]
    exact ⟨fun hpq => hpq.2, fun hqa => ⟨h a ha hqa, hqa⟩⟩
  have hmore : 0 < (l.filter fun a => !q a).countP p :=
    List.countP_pos_iff.2 ⟨b, List.mem_filter.2 ⟨hb, by rw [hq]; rfl⟩, hp⟩
  have := List.countP_eq_countP_filter_add l p q
  omega

theorem countP_le_succ {A B : Type*} [DecidableEq B] {f : A → B} {p q : A → Bool} {l : List A}
    {b : B} (hl : (l.map f).Nodup) (h : ∀ a ∈ l, q a = true → p a = true ∨ f a = b) :
    l.countP q ≤ l.countP p + 1 := by
  have hle : (l.filter fun a => !decide (f a = b)).countP q ≤ l.countP p := by
    rw [List.countP_filter]
    refine List.countP_mono_left fun a ha hqa => ?_
    simp only [Bool.and_eq_true, Bool.not_eq_true', decide_eq_false_iff_not] at hqa
    exact (h a ha hqa.1).resolve_right hqa.2
  have hone : (l.filter fun a => decide (f a = b)).countP q ≤ 1 := by
    refine Nat.le_trans List.countP_le_length ?_
    rw [← List.countP_eq_length_filter]
    refine Nat.le_trans (Nat.le_of_eq ?_) (List.nodup_iff_count_le_one.1 hl b)
    rw [List.count, List.countP_map]
    exact List.countP_congr fun a _ => by simp
  have := List.countP_eq_countP_filter_add l q fun a => decide (f a = b)
  omega

theorem executions_paid (hi : Inv reg s) (h : s.step reg ev = some s') :
    (s.executions k ev).length + s'.toExecute k ≤ s.toExecute k + s.entersRunning reg k ev := by
  rw [Sys.toExecute_step h]
  by_cases hstart : ∃ i x r now, ev = .db (.commit i) ∧ s.db.txns i = some x ∧
      x.act = .actionStart r k now
  · obtain ⟨i, x, r, now, rfl, hx, hact⟩ := hstart
    rw [start_enters hi h hx hact]
    -- of all threads, only the one that the transaction belongs to
    have := countP_le_succ (q := fun th => (th.after s (.db (.commit i))).toExecute k) (b := r)
      hi.runners fun th _ hth => by
        rcases Thread.toExecute_after hth with hold | ⟨j, y, _, he, hy, hact'⟩
        · exact .inl hold
        · obtain rfl := Event.commit.inj (Ev.db.inj he)
          obtain rfl := Option.some.inj (hx.symm.trans hy)
          rw [hact] at hact'
          exact .inr (Tx.actionStart.inj hact').1.symm
    show 0 + _ ≤ _
    unfold Sys.toExecute
    omega
  · have hmono : ∀ th ∈ s.threads, (th.after s ev).toExecute k = true →
        th.toExecute k = true := by
      intro th _ hth
      rcases Thread.toExecute_after hth with hold | ⟨i, x, now, he, hx, hact⟩
      · exact hold
      · exact absurd ⟨i, x, _, now, he, hx, hact⟩ hstart
    by_cases hex : s.executions k ev = []
    · rw [hex]
      have := List.countP_mono_left hmono
      unfold Sys.toExecute
      simp only [List.length_nil]
      omega
    · obtain ⟨r, now, body, outcome, rfl⟩ : ∃ r now body outcome,
          ev = .db (.begin (.execute r k now body outcome)) := by
        unfold Sys.executions at hex
        split at hex
        · split_ifs at hex with hk
          · exact ⟨_, _, _, _, by rw [hk]⟩
          · exact absurd rfl hex
        · exact absurd rfl hex
      -- the thread that begins to execute
      have ha := (Sys.step_of_db h).1
      simp only [Sys.allows, Tx.owner, Option.isNone_some, Bool.false_or, Bool.and_eq_true,
        List.any_eq_true] at ha
      obtain ⟨⟨th, hm, hown, hready⟩, -⟩ := ha
      have hlt := countP_lt_countP (p := Thread.toExecute k)
        (q := fun th => (th.after s (.db (.begin (.execute r k now body outcome)))).toExecute k) hm
        (by
          have hk := of_decide_eq_true hown
          exact decide_eq_true ⟨(Prod.mk.inj (Option.some.inj hk)).2.symm,
            of_decide_eq_true hready⟩)
        (by
          show (if th.owns _ then th.begun _ else th).toExecute k = false
          rw [if_pos hown]
          simp [Thread.begun, Thread.toExecute]) hmono
      have hone : (s.executions k (.db (.begin (.execute r k now body outcome)))).length ≤ 1 := by
        simp only [Sys.executions, if_true]
        cases s.db.cur.row k <;> simp
      unfold Sys.toExecute
      omega

theorem threads_known {s₀ : Sys} {es : List Ev} (h0 : Start s₀)
    (hp : Path (Sys.step reg) anyStep s₀ es s) : ∀ th ∈ s.threads, th.task ∈ s.db.cur.keys := by
  refine hp.inv_of (J := Inv reg) (I := fun s => ∀ th ∈ s.threads, th.task ∈ s.db.cur.keys)
    (fun _ _ _ hi _ h => hi.step h) (fun s e s' hi hI _ h th' hm' => ?_) h0.inv
    (fun th hm => by rw [h0.no_thread] at hm; cases hm)
  refine Sys.keys_subset h ?_
  rcases Sys.step_thread h hm' with ⟨th, hm, rfl⟩ | ⟨i, x, -, hx, hsp⟩
  · rw [(th.after_same s e).2.1]
    exact hI th hm
  · obtain ⟨c, rank, uuid, hact, hk, -⟩ := mem_spawned hsp
    obtain ⟨t, ht, -, -⟩ := claim_locked (hi.wf.txn i x hx) (hi.snapIds i x hx) hact hk
    exact hi.wf.cur.present _ t ((hi.wf.txn i x hx).locked_row hk ▸ ht)

theorem toExecute_new {s₀ : Sys} {es : List Ev} {t : Task} (h0 : Start s₀)
    (hp : Path (Sys.step reg) anyStep s₀ es s) (h : s.step reg ev = some s')
    (hnew : k ∉ s.db.cur.keys) (ht : s'.db.cur.row k = some t) (hst : t.state = .pending) :
    s'.toExecute k = 0 := by
  have hpaid := executions_paid (k := k) (h0.inv.path hp) h
  have hzero : s.toExecute k = 0 := by
    refine List.countP_eq_zero.2 fun th hm hth => hnew ?_
    rw [← (of_decide_eq_true hth).1]
    exact threads_known h0 hp th hm
  have hno : s.entersRunning reg k ev = 0 := by
    unfold Sys.entersRunning
    rw [h, Option.bind_some, ht, Option.map_some, hst, if_neg (fun hc => by cases hc.2)]
  omega

/-! ## Planned calls in runs -/

/-- **A planned call.** A task with a planned call has just been created, and is not edited by hand.
In every run, whatever executes it runs as the user who planned the call and executes what was
planned: in any environment it calls the method on the records with the keyword arguments if the
call is admitted there, and nothing otherwise. It is executed once at most, and once more for each
manual retry. -/
theorem planned_call {s₀ s₁ : Sys} {es₀ es : List Ev} {J : JsonObjects} {p : PlanArgs}
    {model : String} {selfIds : List ℤ} {func : Option Bool} {E : Env} {uid : UserId}
    (h0 : Start s₀) (hp₀ : Path (Sys.step reg) anyStep s₀ es₀ s₁)
    (hc : s₁.step reg ev = some s) (hnew : k ∉ s₁.db.cur.keys)
    (hk : s.db.cur.row k = some (((gTaskQueuePlan J model selfIds func p).1.vals E uid k).create))
    (hreg : ∀ cls, E.reg.lookup modelMethodCode = some cls → cls = modelMethodType)
    (hJ : p.Kept J model selfIds) (hp : Path (Sys.step reg) (Unedited reg k) s es s') :
    (∀ t ∈ emitted (Sys.step reg) (Sys.executions k) s es,
      t.typeCode = modelMethodCode ∧ t.createUid = uid ∧
        ∀ (O : Odoo) (c : MethodCall), O.execute J t.taskParams = .ok c ↔
          c = p.call J model selfIds ∧ O.Admits c) ∧
    (emitted (Sys.step reg) (Sys.executions k) s es).length ≤
      1 + total (Sys.step reg) (Sys.manualRetries reg k) s es := by
  obtain ⟨v, hv⟩ : ∃ v, v = (gTaskQueuePlan J model selfIds func p).1.vals E uid k := ⟨_, rfl⟩
  rw [← hv] at hk
  have hmax : v.maxRetries = 0 := by
    rw [hv]
    show ((E.reg.lookup modelMethodCode).map TaskType.maxRetries).getD 0 = 0
    cases hl : E.reg.lookup modelMethodCode with
    | none => rfl
    | some cls => rw [hreg cls hl]; rfl
  have hi : Inv reg s := (h0.inv.path hp₀).step hc
  have hd : Drawn s := (Drawn.path h0 hp₀).step (h0.inv.path hp₀) hc
  -- the task stays there, within its budget, with the call that it was created with
  let I : Sys → Prop := fun s => Inv reg s ∧ Drawn s ∧
    ∃ t, s.db.cur.row k = some t ∧ Within 0 t ∧ SameCall v.create t
  have hI0 : I s := ⟨hi, hd, v.create, hk, ⟨hmax, Int.le_refl 0⟩, rfl, rfl, rfl⟩
  have hstep : ∀ s ev s', I s → Unedited reg k s ev → s.step reg ev = some s' → I s' ∧
      ((s.executions k ev).countP (fun _ => true) : ℤ) +
          (s'.toExecute k + (s'.db.cur.row k).elim 0 spare) ≤
        s.toExecute k + (s.db.cur.row k).elim 0 spare + s.manualRetries reg k ev := by
    rintro s ev s' ⟨hi, hd, t, ht, hw, hsame⟩ he h
    obtain ⟨t', ht'⟩ := he.there hi h ht
    refine ⟨⟨hi.step h, hd.step hi h, t', ht', he.within hi hd h ht ht' hw,
      hsame.trans (he.sameCall hi hd h ht ht')⟩, ?_⟩
    have hpaid := executions_paid (k := k) hi h
    have hspare := he.spare hi h ht ht'
    rw [ht, ht', Option.elim_some, Option.elim_some, List.countP_true]
    omega
  constructor
  · have hall := hp.inv_emitted (f := Sys.executions k)
      (I := fun l s => I s ∧ ∀ t ∈ l, SameCall v.create t)
      (fun l s ev s' hs he h => by
        refine ⟨(hstep s ev s' hs.1 he h).1, fun t ht => ?_⟩
        rcases List.mem_append.1 ht with ht | ht
        · exact hs.2 t ht
        · obtain ⟨-, -, u, hu, -, hsame⟩ := hs.1
          unfold Sys.executions at ht
          split at ht
          · split_ifs at ht
            · rw [hu, Option.toList_some, List.mem_singleton] at ht
              exact ht ▸ hsame
            · cases ht
          · cases ht) (l := []) ⟨hI0, by simp⟩
    intro t ht
    obtain ⟨htype, hparams, huid⟩ := hall.2 t ht
    rw [hv] at htype hparams huid
    refine ⟨htype, huid, fun O c => ?_⟩
    rw [hparams]
    exact execute_planned hJ
  · obtain ⟨-, -, t, ht, hw, -⟩ := hp.inv (fun s ev s' hI he h => (hstep s ev s' hI he h).1) hI0
    have hpot := hp.total_potential hstep hI0
    rw [← emitted_countP (Sys.executions k) fun _ => true, List.countP_true, ht, hk,
      toExecute_new h0 hp₀ hc hnew hk rfl, Option.elim_some, Option.elim_some,
      spare_of_queued (t := v.create) (.inl rfl)] at hpot
    have h1 := le_spare t
    have h2 := hw.count
    have h3 : v.create.retryCount = 0 := rfl
    omega

/-! ### `do_increment` on one record -/

def increment : PlanArgs := { method := "do_increment", kwargs := [("amount", .int 1)] }

def incrementKwargs : Json := .text "\x7b\"amount\": 1\x7d"

def incrementParams : Json := .text ("\x7b\"model\": \"test.task.target\", \"kwargs\": " ++
  "\x7b\"amount\": 1\x7d, \"method\": \"do_increment\", \"record_ids\": [7]\x7d")

/-- The column sorts the keys by their length. -/
def incrementJson : JsonObjects where
  dump d := if d = increment.kwargs then incrementKwargs else incrementParams
  load v :=
    if v = incrementKwargs then some increment.kwargs
    else if v = incrementParams then some [("model", .str "test.task.target"),
      ("kwargs", incrementKwargs), ("method", .str "do_increment"), ("record_ids", .ints [7])]
    else none

theorem increment_kept : increment.Kept incrementJson "test.task.target" [7] where
  params := by
    refine ⟨_, rfl, fun key => ?_⟩
    by_cases h1 : key = "model"
    · rw [h1]; rfl
    by_cases h2 : key = "method"
    · rw [h2]; rfl
    by_cases h3 : key = "record_ids"
    · rw [h3]; rfl
    by_cases h4 : key = "kwargs"
    · rw [h4]; rfl
    rw [List.lookup_eq_none_iff.2 (by simp [h1, h2, h3, h4]),
      List.lookup_eq_none_iff.2 (by simp [PlanArgs.params, increment, h1, h2, h3, h4])]
  kwargs _ := ⟨_, rfl, fun _ => rfl⟩

def targetOdoo : Odoo where
  models := ["test.task.target"]
  stored _ i := i = 7
  getattr _ _ method := .ok (method = "do_increment")
  otherIds _ _ := .error (.other "object of type 'int' has no len()")
  typeError _ _ := .other "unhashable type: 'list'"
  setText _ := ""
  otherIds_stored _ _ _ h := by cases h

def emptyTable : Table where
  rows := []
  nodup := List.nodup_nil

def modelMethodEnv : Env := ⟨[(modelMethodCode, modelMethodType)], [modelMethodCode], 100, []⟩

def incrementVals : TaskVals :=
  (gTaskQueuePlan incrementJson "test.task.target" [7] (some true) increment).1.vals
    modelMethodEnv 2 1

def modelMethodClaim : ClaimArgs :=
  { worker := 1, channels := ["default"], taskTypes := [modelMethodCode], singletonTypes := []
    limit := 1, now := 100 }

/-- The user plans the call; the transaction is about to commit. -/
def incrementPlanned : List Ev := [
  .db (.begin (.user [(1, .create incrementVals)])), .db (.lock 0)]

/-- A worker claims the task, and executes it. -/
def incrementExecuted : List Ev := [
  .db (.begin (.claimTask modelMethodClaim id fun _ => 7)), .db (.lock 1), .db (.commit 1),
  .db (.begin (.actionStart 7 1 101)), .db (.lock 2), .db (.commit 2),
  .db (.begin (.execute 7 1 102 [] (.returns none))), .db (.lock 3), .db (.commit 3)]

theorem incrementExecuted_planned : ∃ s₁ s s' t,
    Path (Sys.step []) anyStep (Sys.init emptyTable) incrementPlanned s₁ ∧
    s₁.step [] (.db (.commit 0)) = some s ∧
    Path (Sys.step []) (Unedited [] 1) s incrementExecuted s' ∧
    emitted (Sys.step []) (Sys.executions 1) s incrementExecuted = [t] ∧
    targetOdoo.execute incrementJson t.taskParams =
      .ok ⟨"test.task.target", "do_increment", [7], incrementKwargs⟩ := by
  have hp₀ : Path (Sys.step []) anyStep (Sys.init emptyTable) incrementPlanned _ :=
    path_reached (by decide +kernel)
  have hc : (reached (Sys.step []) anyStep (Sys.init emptyTable) incrementPlanned).step []
      (.db (.commit 0)) = some _ := step_reached (by decide +kernel)
  have hp : Path (Sys.step []) (Unedited [] 1) _ incrementExecuted _ :=
    path_reached (s := reached (Sys.step []) anyStep (Sys.init emptyTable)
      (incrementPlanned ++ [.db (.commit 0)])) (by decide +kernel)
  obtain ⟨t, ht⟩ : ∃ t, emitted (Sys.step []) (Sys.executions 1)
      (reached (Sys.step []) anyStep (Sys.init emptyTable) (incrementPlanned ++ [.db (.commit 0)]))
      incrementExecuted = [t] := List.length_eq_one_iff.1 (by decide +kernel)
  refine ⟨_, _, _, t, hp₀, hc, hp, ht, ?_⟩
  have hplan := planned_call (E := modelMethodEnv) (Start.init (by decide)) hp₀ hc
    (by decide +kernel) (show _ = some ((gTaskQueuePlan incrementJson "test.task.target" [7]
      (some true) increment).1.vals modelMethodEnv 2 1).create from rfl)
    (fun cls h => (Option.some.inj h).symm) increment_kept hp
  exact ((hplan.1 t (by rw [ht]; exact List.mem_singleton.2 rfl)).2.2 targetOdoo _).2 ⟨rfl,
    by decide, by decide, by decide, rfl⟩

end GenericTaskQueue
