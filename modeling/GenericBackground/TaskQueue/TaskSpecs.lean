import GenericBackground.Lib.Traverse
import GenericBackground.TaskQueue.Rpc

/-!
# Describing a wave of tasks

`tools/task_spec.py` and what reads it: `_collect_specs` flattens the arguments of
`create_children`, `spawn_children` and `create_tasks`, and `_normalize_plan` what `plan_phase`
returns. Both tell the forms apart by the type of the value and by whether it is true, so the values
are Python values here.

The calls do not depend on the form. A plan that is a tuple is always taken for a pair of a type
code and a list of params, so a wave that is returned as a tuple of its specs is not spawned
(`wave_forms`, `normalizePlan_tuple`).
-/

namespace GenericTaskQueue

namespace Tools

/-! ## Specs -/

/-- The override fields of a `TaskSpec`; `none` is not set. -/
structure Overrides where
  name : Option String := none
  channel : Option Channel := none
  priority : Option ℤ := none
  eta : Option ℕ := none
  timeout : Option ℤ := none
  retryPolicy : Option String := none
  maxRetries : Option ℤ := none
  deriving DecidableEq, Repr

/-- `TaskSpec`, as its constructor admits it. -/
structure TaskSpec extends Overrides where
  typeCode : TypeCode
  params : Option Json := none
  named : typeCode ≠ ""
  deriving DecidableEq, Repr

/-- Keyword arguments: a field that is not given, or its value, which may be `None`; and the names
that are no fields. -/
structure Kwargs where
  name : Option (Option String) := none
  channel : Option (Option Channel) := none
  priority : Option (Option ℤ) := none
  eta : Option (Option ℕ) := none
  timeout : Option (Option ℤ) := none
  retryPolicy : Option (Option String) := none
  maxRetries : Option (Option ℤ) := none
  unknown : List String := []
  deriving DecidableEq, Repr

namespace Kwargs

def merge (defaults overrides : Kwargs) : Kwargs where
  name := overrides.name.orElse fun _ => defaults.name
  channel := overrides.channel.orElse fun _ => defaults.channel
  priority := overrides.priority.orElse fun _ => defaults.priority
  eta := overrides.eta.orElse fun _ => defaults.eta
  timeout := overrides.timeout.orElse fun _ => defaults.timeout
  retryPolicy := overrides.retryPolicy.orElse fun _ => defaults.retryPolicy
  maxRetries := overrides.maxRetries.orElse fun _ => defaults.maxRetries
  unknown := overrides.unknown ++ defaults.unknown.filter (· ∉ overrides.unknown)

/-- The values of the fields. -/
def overrides (kw : Kwargs) : Overrides where
  name := kw.name.join
  channel := kw.channel.join
  priority := kw.priority.join
  eta := kw.eta.join
  timeout := kw.timeout.join
  retryPolicy := kw.retryPolicy.join
  maxRetries := kw.maxRetries.join

end Kwargs

structure TaskListSpec where
  defaults : Kwargs := {}
  specs : List TaskSpec := []
  deriving DecidableEq, Repr

/-- A value that is passed where specs, a type code or params are expected. A generator is given by
what it yields; `other` is an instance of a type whose instances are not iterable. -/
inductive PyValue where
  | none
  | str (s : String)
  | dict (json : Json) (keys : List String)
  | other (type : String) (truth : Bool)
  | spec (s : TaskSpec)
  | taskListSpec (b : TaskListSpec)
  | list (items : List PyValue)
  | tuple (items : List PyValue)
  | generator (items : List PyValue)

namespace PyValue

def typeName : PyValue → String
  | none => "NoneType"
  | str _ => "str"
  | dict _ _ => "dict"
  | other type _ => type
  | spec _ => "TaskSpec"
  | taskListSpec _ => "TaskListSpec"
  | list _ => "list"
  | tuple _ => "tuple"
  | generator _ => "generator"

def truth : PyValue → Bool
  | none => false
  | str s => s ≠ ""
  | dict _ keys => !keys.isEmpty
  | other _ truth => truth
  | spec _ => true
  | taskListSpec b => !b.specs.isEmpty
  | list items => !items.isEmpty
  | tuple items => !items.isEmpty
  | generator _ => true

/-- `iter(v)`, for what is iterable. -/
def iter : PyValue → Option (List PyValue)
  | none => .none
  | str s => some (s.toList.map fun c => .str (String.singleton c))
  | dict _ keys => some (keys.map .str)
  | other _ _ => .none
  | spec _ => .none
  | taskListSpec b => some (b.specs.map .spec)
  | list items => some items
  | tuple items => some items
  | generator items => some items

def isNone : PyValue → Bool
  | none => true
  | _ => false

end PyValue

inductive SpecError where
  | valueError (msg : String)
  | typeError (msg : String)
  | validationError (msg : String)
  | ormError
  deriving DecidableEq, Repr

/-- `for x in v` -/
def items (v : PyValue) : Except SpecError (List PyValue) :=
  match v.iter with
  | some l => .ok l
  | none => .error (.typeError ("'" ++ v.typeName ++ "' object is not iterable"))

namespace TaskSpec

/-- `TaskSpec(type_code, params, …)` -/
def new (typeCode params : PyValue) (o : Overrides) : Except SpecError TaskSpec :=
  match typeCode with
  | .str code =>
    if h : code ≠ "" then
      match params with
      | .none => .ok { o with typeCode := code, params := none, named := h }
      | .dict json _ => .ok { o with typeCode := code, params := some json, named := h }
      | v => .error (.valueError ("TaskSpec.params must be a dict or None, got " ++ v.typeName))
    else .error (.valueError "TaskSpec.type_code must be a non-empty string, got ''")
  | _ => .error (.valueError "TaskSpec.type_code must be a non-empty string")

def build (typeCode params : PyValue) (kw : Kwargs) : Except SpecError TaskSpec :=
  if kw.unknown ≠ [] then
    .error (.valueError ("Unknown TaskSpec field(s): " ++
      ", ".intercalate (kw.unknown.insertionSort (· ≤ ·)) ++ ". Valid overrides: " ++
      ", ".intercalate overrideFields ++ "."))
  else new typeCode params kw.overrides

end TaskSpec

namespace TaskListSpec

def add (b : TaskListSpec) (typeCode params : PyValue) (overrides : Kwargs) :
    Except SpecError TaskListSpec :=
  (TaskSpec.build typeCode params (b.defaults.merge overrides)).map fun s =>
    { b with specs := b.specs ++ [s] }

def addSpec (b : TaskListSpec) (v : PyValue) : Except SpecError TaskListSpec :=
  match v with
  | .spec s => .ok { b with specs := b.specs ++ [s] }
  | v => .error (.typeError ("add_spec() expects a TaskSpec, got " ++ v.typeName))

def addMany (b : TaskListSpec) (typeCode paramsList : PyValue) (overrides : Kwargs) :
    Except SpecError TaskListSpec := do
  (← items paramsList).foldlM (fun b params => b.add typeCode params overrides) b

def extend (b : TaskListSpec) (specs : PyValue) : Except SpecError TaskListSpec := do
  (← items specs).foldlM addSpec b

end TaskListSpec

/-! ## Collecting specs -/

/-- One positional argument of `_collect_specs`. -/
def collectItem (v : PyValue) : Except SpecError (List TaskSpec) :=
  let one : PyValue → Except SpecError TaskSpec
    | .spec s => .ok s
    | v => .error (.validationError ("Expected TaskSpec instances, got " ++ v.typeName ++ "."))
  let refused : Except SpecError (List TaskSpec) := .error (.validationError
    ("Expected a TaskSpec or an iterable of TaskSpec, got " ++ v.typeName ++ "."))
  match v with
  | .spec s => .ok [s]
  | .str _ => refused
  | v => v.iter.elim refused fun subs => subs.mapM one

/-- `params_list or []` -/
def paramsOf (paramsList : PyValue) : Except SpecError (List PyValue) :=
  if paramsList.truth then items paramsList else .ok []

def collectSpecs (specs : List PyValue) (typeCode paramsList : PyValue) (commonVals : Kwargs) :
    Except SpecError (List TaskSpec) :=
  if specs ≠ [] then
    if typeCode.isNone = false ∨ paramsList.isNone = false ∨ commonVals ≠ {} then
      .error (.validationError ("Pass task specs positionally OR the keyword type_code / " ++
        "params_list shorthand, not both."))
    else (specs.mapM collectItem).map List.flatten
  else do (← paramsOf paramsList).mapM fun params => TaskSpec.build typeCode params commonVals

def normalizePlan (plan : PyValue) : Except SpecError (List PyValue) :=
  if !plan.truth then .ok []
  else match plan with
    | .tuple [typeCode, paramsList] => do
      (← paramsOf paramsList).mapM fun params => (TaskSpec.new typeCode params {}).map .spec
    | .tuple values => .error (.valueError (if values.length < 2 then
        "not enough values to unpack (expected 2, got " ++ toString values.length ++ ")"
      else "too many values to unpack (expected 2)"))
    | plan => items plan

/-! ## The values of a task -/

def retryPolicyAliases : List (String × String) :=
  [("non_retriable", "no_retry"), ("retriable", "retry_any")]

def normalizeRetryPolicy (value : String) : String :=
  (retryPolicyAliases.lookup value).getD value

/-- The values passed to `create`: a field that is absent has its default there. -/
structure Vals where
  typeCode : TypeCode
  taskParams : Json
  name : Option String := none
  channel : Option (Option Channel) := none
  priority : Option ℤ := none
  eta : Option ℕ := none
  timeout : Option ℤ := none
  retryPolicy : Option (Option String) := none
  maxRetries : Option (Option ℤ) := none
  parentId : Option TaskId := none
  deriving DecidableEq, Repr

def TaskSpec.toVals (s : TaskSpec) : Vals where
  typeCode := s.typeCode
  taskParams := s.params.getD (.text "{}")
  name := s.name
  channel := s.channel.map some
  priority := s.priority
  eta := s.eta
  timeout := s.timeout
  retryPolicy := s.retryPolicy.map fun p => some (normalizeRetryPolicy p)
  maxRetries := s.maxRetries.map some

/-- The attributes of a task type class that enqueueing reads. -/
structure TypeClass where
  retryPolicy : Option String
  maxRetries : Option ℤ
  defaultChannel : Option Channel
  deriving DecidableEq, Repr

/-- What enqueueing reads besides the table: the registry, the codes of the active task type
records, and the clock. Each registered type has the class that its definitions merge into, and
`none` if they do not merge; `registryInstance` is set once `TaskTypeRegistry()` has returned. -/
structure TypeEnv where
  registeredTypes : List (TypeCode × Option TypeClass)
  registryInstance : Bool := true
  activeTypes : List TypeCode
  now : ℕ

namespace TypeEnv

/-- `type(name, bases, {})`, for definitions that do not merge. -/
def unmergeable : SpecError :=
  .typeError "Cannot create a consistent method resolution order (MRO)"

/-- `TaskTypeRegistry.__new__`: the first instance merges all types, whichever is asked for. -/
def taskTypeRegistry (E : TypeEnv) : Except SpecError Unit :=
  if E.registryInstance || E.registeredTypes.all fun p => p.2.isSome then .ok ()
  else .error unmergeable

/-- `get_task_type`, with `none` for a `KeyError`. -/
def getTaskType (E : TypeEnv) (code : TypeCode) : Except SpecError (Option TypeClass) :=
  match E.registeredTypes.lookup code with
  | none => .ok none
  | some (some cls) => .ok (some cls)
  | some none => .error unmergeable

end TypeEnv

namespace Vals

/-- `setdefault` of the channel of the type. -/
def withChannelDefault (v : Vals) : Option TypeClass → Vals
  | some cls => { v with channel := some (v.channel.getD cls.defaultChannel) }
  | none => v

/-- `setdefault` of the retry settings of the type. -/
def withRetryDefaults (v : Vals) : Option TypeClass → Vals
  | some cls => { v with
      retryPolicy := some (v.retryPolicy.getD cls.retryPolicy)
      maxRetries := some (v.maxRetries.getD cls.maxRetries) }
  | none => v

/-- `setdefault` of the name. -/
def withName (v : Vals) (name : String) : Vals := { v with name := some (v.name.getD name) }

/-- A retry policy that is there, and not empty, is normalized. -/
def normalized (v : Vals) : Vals :=
  { v with retryPolicy := v.retryPolicy.map fun p => p.map fun s =>
      if s = "" then s else normalizeRetryPolicy s }

end Vals

/-- What `create_children` passes to `create` for the `i`-th of `total` specs. -/
def childVals (E : TypeEnv) (parent : Task) (total i : ℕ) (s : TaskSpec) :
    Except SpecError Vals := do
  let vals := { s.toVals with
    name := some (s.name.getD
      (parent.name ++ " [" ++ toString (i + 1) ++ "/" ++ toString total ++ "]"))
    parentId := some parent.id
    channel := some (some (s.channel.getD parent.channel)) }
  return (vals.withRetryDefaults (← E.getTaskType s.typeCode)).normalized

/-- What `create_tasks` passes to `create` for a spec. -/
def taskVals (E : TypeEnv) (s : TaskSpec) : Except SpecError Vals := do
  let cls ← E.getTaskType s.typeCode
  let vals := (s.toVals.withChannelDefault cls).withRetryDefaults cls
  return (vals.withName s.typeCode).normalized

/-! ## Creating the tasks -/

/-- The selection `RETRY_POLICIES`. -/
def retryPolicies : List (String × RetryPolicy) :=
  [("no_retry", .noRetry), ("retry_known", .retryKnown), ("retry_any", .retryAny)]

/-- The selection takes its own values only. -/
def selected (policy : String) : Except SpecError RetryPolicy :=
  match retryPolicies.lookup policy with
  | some p => .ok p
  | none => .error (.valueError
    ("Wrong value for generic.task.queue.task.retry_policy: '" ++ policy ++ "'"))

def required {α : Type} (v : Option (Option α)) (default : α) : Except SpecError α :=
  match v with
  | none => .ok default
  | some (some a) => .ok a
  | some none => .error .ormError

/-- One record of `create`. -/
def Vals.create (E : TypeEnv) (uid : UserId) (v : Vals) : Except SpecError Task := do
  if v.typeCode ∉ E.activeTypes then
    throw (.validationError ("Unknown task type '" ++ v.typeCode ++ "'."))
  let name ← v.name.elim (.error .ormError) .ok
  let channel ← required v.channel "default"
  let policy ← required v.retryPolicy "no_retry"
  let retryPolicy ← selected policy
  return {
    id := 0
    name := name
    typeCode := v.typeCode
    channel := channel
    priority := v.priority.getD 5
    taskParams := v.taskParams
    eta := v.eta
    retryPolicy := retryPolicy
    maxRetries := (v.maxRetries.getD (some 0)).getD 0
    timeout := v.timeout.getD 0
    parentId := v.parentId
    dateCreated := E.now
    createUid := uid }

def createRecords (E : TypeEnv) (uid : UserId) (valsList : List Vals) (T : Table) :
    Except SpecError Table := (valsList.mapM (Vals.create E uid)).map T.insert

/-- The children of `create_children` for collected specs: in the name of the parent's creator. -/
def childRecords (E : TypeEnv) (parent : Task) (specs : List TaskSpec) (T : Table) :
    Except SpecError Table := do
  createRecords E parent.createUid
    (← specs.zipIdx.mapM fun p => childVals E parent specs.length p.2 p.1) T

def createChildren (E : TypeEnv) (parent : Task) (specs : List PyValue)
    (typeCode paramsList : PyValue) (commonVals : Kwargs) (T : Table) : Except SpecError Table := do
  E.taskTypeRegistry
  childRecords E parent (← collectSpecs specs typeCode paramsList commonVals) T

/-- `spawn_children`: the record itself is the parent. -/
def spawnChildren (E : TypeEnv) (self : Task) (specs : List PyValue) (typeCode paramsList : PyValue)
    (commonVals : Kwargs) (T : Table) : Except SpecError Table :=
  createChildren E self specs typeCode paramsList commonVals T

/-- The tasks of `create_tasks` for collected specs. -/
def taskRecords (E : TypeEnv) (uid : UserId) (specs : List TaskSpec) (T : Table) :
    Except SpecError Table := do
  createRecords E uid (← specs.mapM (taskVals E)) T

def createTasks (E : TypeEnv) (uid : UserId) (specs : List PyValue) (typeCode paramsList : PyValue)
    (commonVals : Kwargs) (T : Table) : Except SpecError Table := do
  E.taskTypeRegistry
  taskRecords E uid (← collectSpecs specs typeCode paramsList commonVals) T

/-- The wave that `_start_wave` spawns for a plan; a phase without specs is skipped. -/
def spawnPlan (E : TypeEnv) (task : Task) (plan : PyValue) (T : Table) :
    Except SpecError (Option Table) := do
  let specs ← normalizePlan plan
  if specs.isEmpty then return none
  else (spawnChildren E task [.list specs] .none .none {} T).map some

/-! ## The forms of a wave -/

/-- One positional argument: a spec, or an iterable of specs. -/
inductive Item where
  | spec (s : TaskSpec)
  | list (specs : List TaskSpec)
  | tuple (specs : List TaskSpec)
  | generator (specs : List TaskSpec)
  | taskListSpec (b : TaskListSpec)

namespace Item

def specs : Item → List TaskSpec
  | spec s => [s]
  | list specs => specs
  | tuple specs => specs
  | generator specs => specs
  | taskListSpec b => b.specs

def value : Item → PyValue
  | spec s => .spec s
  | list specs => .list (specs.map .spec)
  | tuple specs => .tuple (specs.map .spec)
  | generator specs => .generator (specs.map .spec)
  | taskListSpec b => .taskListSpec b

end Item

/-- The params of one task as a Python value: `None`, or a dict. -/
def paramsValue : Option (Json × List String) → PyValue
  | none => .none
  | some p => .dict p.1 p.2

/-- The shorthand: one type, one list of params, and overrides that all specs share. -/
structure Shorthand where
  typeCode : TypeCode
  named : typeCode ≠ ""
  commonVals : Kwargs := {}
  known : commonVals.unknown = []
  paramsList : List (Option (Json × List String))

def Shorthand.specs (f : Shorthand) : List TaskSpec := f.paramsList.map fun params =>
  { f.commonVals.overrides with
    typeCode := f.typeCode, params := params.map Prod.fst, named := f.named }

/-- The forms in which a call takes a wave: positional arguments, of which there may be one, several
or none, and the shorthand with any iterable of params. -/
inductive Form where
  | positional (items : List Item)
  | shorthand (iterable : List PyValue → PyValue) (f : Shorthand)
      (h : iterable = .list ∨ iterable = .tuple ∨ iterable = .generator)

namespace Form

def specs : Form → List TaskSpec
  | positional items => items.flatMap Item.specs
  | shorthand _ f _ => f.specs

def call {α : Type} (form : Form) (f : List PyValue → PyValue → PyValue → Kwargs → α) : α :=
  match form with
  | positional items => f (items.map Item.value) .none .none {}
  | shorthand iterable s _ =>
    f [] (.str s.typeCode) (iterable (s.paramsList.map paramsValue)) s.commonVals

end Form

theorem collectItem_value (i : Item) : collectItem i.value = .ok i.specs := by
  have all : ∀ l : List TaskSpec, (l.map PyValue.spec).mapM (m := Except SpecError) (fun v =>
      match v with
      | .spec s => .ok s
      | v => .error (.validationError ("Expected TaskSpec instances, got " ++ v.typeName ++ "."))) =
        .ok l := by
    intro l
    rw [List.mapM_map]
    exact (Traverse.mapM_ok (g := id) fun _ _ => rfl).trans (by rw [List.map_id])
  cases i with
  | spec s => rfl
  | list specs => exact all specs
  | tuple specs => exact all specs
  | generator specs => exact all specs
  | taskListSpec b => exact all b.specs

theorem new_paramsValue (f : Shorthand) (params : Option (Json × List String)) (o : Overrides) :
    TaskSpec.new (.str f.typeCode) (paramsValue params) o =
      .ok { o with typeCode := f.typeCode, params := params.map Prod.fst, named := f.named } := by
  cases params with
  | none => exact dif_pos f.named
  | some p => exact dif_pos f.named

/-- The list that `params_list or []` gives, for any iterable. -/
theorem paramsOf_iterable {iterable : List PyValue → PyValue} (l : List PyValue)
    (h : iterable = .list ∨ iterable = .tuple ∨ iterable = .generator) :
    paramsOf (iterable l) = .ok l := by
  rcases h with rfl | rfl | rfl
  · cases l <;> rfl
  · cases l <;> rfl
  · rfl

/-- **Collection.** Every form of a call is collected to the sequence that it describes. -/
theorem collectSpecs_form (form : Form) : form.call collectSpecs = .ok form.specs := by
  cases form with
  | positional items =>
    show collectSpecs (items.map Item.value) .none .none {} = .ok (items.flatMap Item.specs)
    unfold collectSpecs
    by_cases hnil : items = []
    · subst hnil
      rfl
    · have hall : items.mapM (collectItem ∘ Item.value) = .ok (items.map Item.specs) :=
        Traverse.mapM_ok fun i _ => collectItem_value i
      rw [if_pos (by simpa using hnil), if_neg (by simp [PyValue.isNone]), List.mapM_map, hall]
      rfl
  | shorthand iterable f h =>
    show collectSpecs [] (.str f.typeCode) (iterable (f.paramsList.map paramsValue)) f.commonVals =
      .ok f.specs
    unfold collectSpecs
    rw [if_neg (by simp), paramsOf_iterable _ h]
    show (f.paramsList.map paramsValue).mapM _ = _
    rw [List.mapM_map]
    refine Traverse.mapM_ok fun params _ => ?_
    rw [Function.comp_apply]
    unfold TaskSpec.build
    rw [if_neg (fun h => h f.known)]
    exact new_paramsValue f params _

/-! ## The builder -/

/-- A call of a method of `TaskListSpec`. -/
inductive BuilderCall where
  | add (typeCode params : PyValue) (overrides : Kwargs)
  | addMany (typeCode paramsList : PyValue) (overrides : Kwargs)
  | addSpec (v : PyValue)
  | extend (specs : PyValue)

namespace BuilderCall

def run (b : TaskListSpec) : BuilderCall → Except SpecError TaskListSpec
  | add typeCode params overrides => b.add typeCode params overrides
  | addMany typeCode paramsList overrides => b.addMany typeCode paramsList overrides
  | addSpec v => b.addSpec v
  | extend specs => b.extend specs

def asSpec : PyValue → Except SpecError TaskSpec
  | .spec s => .ok s
  | v => .error (.typeError ("add_spec() expects a TaskSpec, got " ++ v.typeName))

/-- The specs that the call describes: the overrides win over the defaults of the builder, and specs
that are built already are taken as they are. -/
def describes (defaults : Kwargs) : BuilderCall → Except SpecError (List TaskSpec)
  | add typeCode params overrides =>
    (TaskSpec.build typeCode params (defaults.merge overrides)).map fun s => [s]
  | addMany typeCode paramsList overrides => do
    (← items paramsList).mapM fun params =>
      TaskSpec.build typeCode params (defaults.merge overrides)
  | addSpec v => (asSpec v).map fun s => [s]
  | extend specs => do (← items specs).mapM asSpec

end BuilderCall

theorem BuilderCall.run_eq (c : BuilderCall) (defaults : Kwargs) (specs : List TaskSpec) :
    c.run ⟨defaults, specs⟩ = (c.describes defaults).map fun l => ⟨defaults, specs ++ l⟩ := by
  have add : ∀ typeCode params overrides acc, TaskListSpec.add ⟨defaults, acc⟩ typeCode params
      overrides = (TaskSpec.build typeCode params (defaults.merge overrides)).map fun s =>
        ⟨defaults, acc ++ [s]⟩ := fun _ _ _ _ => rfl
  have addSpec : ∀ v acc, TaskListSpec.addSpec ⟨defaults, acc⟩ v =
      (asSpec v).map fun s => ⟨defaults, acc ++ [s]⟩ := by
    intro v acc
    cases v <;> rfl
  cases c with
  | add typeCode params overrides =>
    show TaskListSpec.add _ _ _ _ = Except.map _ (Except.map _ _)
    rw [add]
    cases TaskSpec.build typeCode params (defaults.merge overrides) <;> rfl
  | addMany typeCode paramsList overrides =>
    show TaskListSpec.addMany _ _ _ _ = Except.map _ (_ >>= _)
    unfold TaskListSpec.addMany
    cases items paramsList with
    | error e => rfl
    | ok l =>
      exact Traverse.foldlM_append_one (c := fun l => (⟨defaults, l⟩ : TaskListSpec))
        (fun acc params => add typeCode params overrides acc)
  | addSpec v =>
    show TaskListSpec.addSpec _ _ = Except.map _ (Except.map _ _)
    rw [addSpec]
    cases asSpec v <;> rfl
  | extend v =>
    show TaskListSpec.extend _ _ = Except.map _ (_ >>= _)
    unfold TaskListSpec.extend
    cases items v with
    | error e => rfl
    | ok l =>
      exact Traverse.foldlM_append_one (c := fun l => (⟨defaults, l⟩ : TaskListSpec))
        (fun acc v => addSpec v acc)

/-- **Builder.** Any mix of calls collects what they describe, in order. -/
theorem builder_specs (defaults : Kwargs) (calls : List BuilderCall) :
    calls.foldlM BuilderCall.run { defaults := defaults } =
      (calls.mapM (BuilderCall.describes defaults)).map fun ls => ⟨defaults, ls.flatten⟩ := by
  have h : calls.foldlM BuilderCall.run ⟨defaults, []⟩ =
      (calls.mapM (BuilderCall.describes defaults)).map fun ls => ⟨defaults, [] ++ ls.flatten⟩ :=
    Traverse.foldlM_appends (c := fun l => (⟨defaults, l⟩ : TaskListSpec))
      (fun specs c => BuilderCall.run_eq c defaults specs)
  simpa using h

/-! ## Plans -/

/-- The forms in which `plan_phase` may return a wave. The pair has no place for overrides, and
`return a, b` is a tuple. -/
inductive PlanForm where
  | skipped
  | list (specs : List TaskSpec)
  | tuple (items : List Item)
  | generator (specs : List TaskSpec)
  | taskListSpec (b : TaskListSpec)
  | pair (iterable : List PyValue → PyValue) (f : Shorthand) (hf : f.commonVals = {})
      (h : iterable = .list ∨ iterable = .tuple ∨ iterable = .generator)

namespace PlanForm

def specs : PlanForm → List TaskSpec
  | skipped => []
  | list specs => specs
  | tuple items => items.flatMap Item.specs
  | generator specs => specs
  | taskListSpec b => b.specs
  | pair _ f _ _ => f.specs

def value : PlanForm → PyValue
  | skipped => .none
  | list specs => .list (specs.map .spec)
  | tuple items => .tuple (items.map Item.value)
  | generator specs => .generator (specs.map .spec)
  | taskListSpec b => .taskListSpec b
  | pair iterable f _ _ => .tuple [.str f.typeCode, iterable (f.paramsList.map paramsValue)]

/-- The tuple is taken for a pair: it is not empty, nor are its items two that stand for no spec. -/
def Unpacked : PlanForm → Prop
  | tuple items => items ≠ [] ∧ (items.length = 2 → items.flatMap Item.specs ≠ [])
  | _ => False

end PlanForm

/-- The first item of the tuple is no type code, so at most a list of params without an entry goes
through. -/
theorem normalizePlan_items (l : List Item) :
    normalizePlan (.tuple (l.map Item.value)) = .ok [] ∨
      ∃ msg, normalizePlan (.tuple (l.map Item.value)) = .error (.valueError msg) ∨
        normalizePlan (.tuple (l.map Item.value)) = .error (.typeError msg) := by
  rcases l with - | ⟨a, - | ⟨b, - | ⟨c, l⟩⟩⟩
  · exact .inl rfl
  · exact .inr ⟨_, .inl rfl⟩
  · have hnew : ∀ params, TaskSpec.new a.value params {} =
        .error (.valueError "TaskSpec.type_code must be a non-empty string") := by
      intro params
      cases a <;> rfl
    have hplan : normalizePlan (.tuple [a.value, b.value]) =
        (paramsOf b.value >>= fun l => l.mapM fun params =>
          (TaskSpec.new a.value params {}).map PyValue.spec) := rfl
    have hparams : (∃ ps, paramsOf b.value = .ok ps) ∨
        ∃ msg, paramsOf b.value = .error (.typeError msg) := by
      unfold paramsOf
      split_ifs
      · cases b with
        | spec s => exact .inr ⟨_, rfl⟩
        | list specs => exact .inl ⟨_, rfl⟩
        | tuple specs => exact .inl ⟨_, rfl⟩
        | generator specs => exact .inl ⟨_, rfl⟩
        | taskListSpec b => exact .inl ⟨_, rfl⟩
      · exact .inl ⟨_, rfl⟩
    show normalizePlan (.tuple [a.value, b.value]) = _ ∨ _
    rcases hparams with ⟨ps, hps⟩ | ⟨msg, hps⟩
    · cases ps with
      | nil =>
        left
        rw [hplan, hps]
        rfl
      | cons p ps =>
        refine .inr ⟨"TaskSpec.type_code must be a non-empty string", .inl (hplan.trans ?_)⟩
        rw [hps]
        change ((p :: ps).mapM fun params => (TaskSpec.new a.value params {}).map PyValue.spec) = _
        rw [List.mapM_cons, hnew]
        rfl
    · refine .inr ⟨msg, .inr (hplan.trans ?_)⟩
      rw [hps]
      rfl
  · exact .inr ⟨_, .inl rfl⟩

/-- Two iterables without a spec are an empty wave, as a pair as well. -/
theorem normalizePlan_empty {a b : Item} (h : [a, b].flatMap Item.specs = []) :
    normalizePlan (.tuple [a.value, b.value]) = .ok [] := by
  have hb : b.specs = [] := by simpa using (List.append_eq_nil_iff.1 h).2
  cases b with
  | spec s => cases hb
  | list specs => rw [show specs = [] from hb]; rfl
  | tuple specs => rw [show specs = [] from hb]; rfl
  | generator specs => rw [show specs = [] from hb]; rfl
  | taskListSpec b =>
    obtain ⟨defaults, specs⟩ := b
    rw [show specs = [] from hb]
    rfl

/-- **Plans.** A plan is normalized to the sequence that it describes, unless it is a tuple that is
taken for a pair. -/
theorem normalizePlan_form {p : PlanForm} (hp : ¬ p.Unpacked) :
    normalizePlan p.value = .ok (p.specs.map .spec) := by
  cases p with
  | skipped => rfl
  | list specs => cases specs <;> rfl
  | tuple items =>
    by_cases hnil : items = []
    · subst hnil
      rfl
    · obtain ⟨htwo, hspecs⟩ : items.length = 2 ∧ items.flatMap Item.specs = [] := by
        by_contra hne
        exact hp ⟨hnil, fun htwo hspecs => hne ⟨htwo, hspecs⟩⟩
      obtain ⟨a, b, rfl⟩ := List.length_eq_two.1 htwo
      show normalizePlan (.tuple [a.value, b.value]) = .ok (([a, b].flatMap Item.specs).map .spec)
      rw [hspecs]
      exact normalizePlan_empty hspecs
  | generator specs => rfl
  | taskListSpec b =>
    obtain ⟨defaults, specs⟩ := b
    cases specs <;> rfl
  | pair iterable f hf h =>
    show (paramsOf (iterable (f.paramsList.map paramsValue)) >>= fun l => l.mapM fun params =>
      (TaskSpec.new (.str f.typeCode) params {}).map PyValue.spec) = .ok (f.specs.map .spec)
    rw [paramsOf_iterable _ h]
    show (f.paramsList.map paramsValue).mapM _ = _
    rw [List.mapM_map]
    unfold Shorthand.specs
    rw [List.map_map, hf]
    refine Traverse.mapM_ok fun params _ => ?_
    rw [Function.comp_apply, new_paramsValue]
    rfl

/-- A tuple that is taken for a pair is not normalized to the specs that it holds. -/
theorem normalizePlan_tuple {l : List Item} (h : (PlanForm.tuple l).Unpacked) :
    normalizePlan (.tuple (l.map Item.value)) ≠ .ok ((l.flatMap Item.specs).map .spec) := by
  intro he
  have hspecs : l.flatMap Item.specs = [] := by
    rcases normalizePlan_items l with hok | ⟨msg, herr | herr⟩
    · exact List.map_eq_nil_iff.1 (Except.ok.inj (he.symm.trans hok))
    · cases he.symm.trans herr
    · cases he.symm.trans herr
  rcases l with - | ⟨a, - | ⟨b, - | ⟨c, l⟩⟩⟩
  · exact h.1 rfl
  · cases he
  · exact h.2 rfl hspecs
  · cases he

/-! ## What is created -/

theorem normalizeRetryPolicy_idem (p : String) :
    normalizeRetryPolicy (normalizeRetryPolicy p) = normalizeRetryPolicy p := by
  unfold normalizeRetryPolicy retryPolicyAliases
  by_cases h1 : p = "non_retriable"
  · subst h1
    decide
  · by_cases h2 : p = "retriable"
    · subst h2
      decide
    · simp [List.lookup_cons, beq_false_of_ne h1, beq_false_of_ne h2]

/-- What a record that `create` makes has of the values. -/
structure Created (uid : UserId) (v : Vals) (t : Task) : Prop where
  typeCode : t.typeCode = v.typeCode
  taskParams : t.taskParams = v.taskParams
  name : v.name = some t.name
  channel : required v.channel "default" = .ok t.channel
  priority : t.priority = v.priority.getD 5
  eta : t.eta = v.eta
  timeout : t.timeout = v.timeout.getD 0
  retryPolicy : ∃ p, required v.retryPolicy "no_retry" = .ok p ∧
    selected p = .ok t.retryPolicy
  maxRetries : t.maxRetries = (v.maxRetries.getD (some 0)).getD 0
  parentId : t.parentId = v.parentId
  createUid : t.createUid = uid

variable {E : TypeEnv} {uid : UserId} {v : Vals} {t : Task} {s : TaskSpec} {T T' : Table}

theorem Vals.create_ok (h : v.create E uid = .ok t) : Created uid v t := by
  unfold Vals.create at h
  by_cases ht : v.typeCode ∉ E.activeTypes
  · rw [if_pos ht] at h
    cases h
  rw [if_neg ht] at h
  cases hn : v.name with
  | none => rw [hn] at h; cases h
  | some name =>
    cases hc : required v.channel "default" with
    | error e => rw [hn, hc] at h; cases h
    | ok channel =>
      cases hp : required v.retryPolicy "no_retry" with
      | error e => rw [hn, hc, hp] at h; cases h
      | ok p =>
        cases hl : selected p with
        | error e => rw [hn, hc, hp] at h; change (selected p >>= _) = _ at h; rw [hl] at h; cases h
        | ok policy =>
          rw [hn, hc, hp] at h
          change (selected p >>= _) = _ at h
          rw [hl] at h
          obtain rfl := Except.ok.inj h
          exact ⟨rfl, rfl, hn, hc, rfl, rfl, rfl, ⟨p, hp, hl⟩, rfl, rfl, rfl⟩

theorem Vals.create_unknown (h : v.typeCode ∉ E.activeTypes) : v.create E uid =
    .error (.validationError ("Unknown task type '" ++ v.typeCode ++ "'.")) := by
  unfold Vals.create
  rw [if_pos h]
  rfl

theorem Vals.create_eq {name : String} {channel : Channel} {policy : RetryPolicy}
    (ha : v.typeCode ∈ E.activeTypes) (hn : v.name = some name)
    (hc : required v.channel "default" = .ok channel)
    (hp : (required v.retryPolicy "no_retry" >>= selected) = .ok policy) :
    v.create E uid = .ok
      { id := 0, name := name, typeCode := v.typeCode, channel := channel
        priority := v.priority.getD 5, taskParams := v.taskParams, eta := v.eta
        retryPolicy := policy, maxRetries := (v.maxRetries.getD (some 0)).getD 0
        timeout := v.timeout.getD 0, parentId := v.parentId, dateCreated := E.now
        createUid := uid } := by
  unfold Vals.create
  rw [if_neg (not_not_intro ha), hn, hc]
  cases hr : required v.retryPolicy "no_retry" with
  | error e => rw [hr] at hp; cases hp
  | ok p =>
    rw [hr] at hp
    change selected p = _ at hp
    show (selected p >>= _) = _
    rw [hp]
    rfl

/-- The task has what the spec says. -/
structure Described (s : TaskSpec) (t : Task) : Prop where
  typeCode : t.typeCode = s.typeCode
  taskParams : t.taskParams = s.params.getD (.text "{}")
  name : ∀ n ∈ s.name, t.name = n
  channel : ∀ c ∈ s.channel, t.channel = c
  priority : ∀ n ∈ s.priority, t.priority = n
  eta : ∀ d ∈ s.eta, t.eta = some d
  timeout : ∀ n ∈ s.timeout, t.timeout = n
  retryPolicy : ∀ p ∈ s.retryPolicy, selected (normalizeRetryPolicy p) = .ok t.retryPolicy
  maxRetries : ∀ n ∈ s.maxRetries, t.maxRetries = n

/-- The task is the `i`-th child of `total` that the spec describes. -/
structure ChildOfSpec (parent : Task) (total i : ℕ) (s : TaskSpec) (t : Task) : Prop where
  described : Described s t
  numbered : s.name = none →
    t.name = parent.name ++ " [" ++ toString (i + 1) ++ "/" ++ toString total ++ "]"
  inherited : s.channel = none → t.channel = parent.channel
  parentId : t.parentId = some parent.id
  createUid : t.createUid = parent.createUid

/-- The values carry the spec: whatever it sets is there. -/
structure Carries (s : TaskSpec) (v : Vals) : Prop where
  typeCode : v.typeCode = s.typeCode
  taskParams : v.taskParams = s.params.getD (.text "{}")
  name : ∀ n ∈ s.name, v.name = some n
  channel : ∀ c ∈ s.channel, v.channel = some (some c)
  priority : v.priority = s.priority
  eta : v.eta = s.eta
  timeout : v.timeout = s.timeout
  retryPolicy : ∀ p ∈ s.retryPolicy, v.retryPolicy = some (some (normalizeRetryPolicy p))
  maxRetries : ∀ n ∈ s.maxRetries, v.maxRetries = some (some n)

theorem Carries.described (h : Carries s v) (ht : Created uid v t) : Described s t where
  typeCode := ht.typeCode.trans h.typeCode
  taskParams := ht.taskParams.trans h.taskParams
  name n hn := Option.some.inj (ht.name.symm.trans (h.name n hn))
  channel c hc := by
    have := ht.channel
    rw [h.channel c hc] at this
    exact (Except.ok.inj this).symm
  priority n hn := by rw [ht.priority, h.priority, Option.mem_def.1 hn]; rfl
  eta d hd := by rw [ht.eta, h.eta, Option.mem_def.1 hd]
  timeout n hn := by rw [ht.timeout, h.timeout, Option.mem_def.1 hn]; rfl
  retryPolicy p hp := by
    obtain ⟨q, hq, hsel⟩ := ht.retryPolicy
    rw [h.retryPolicy p hp] at hq
    rw [Except.ok.inj hq, hsel]
  maxRetries n hn := by rw [ht.maxRetries, h.maxRetries n hn]; rfl

/-- The retry defaults of the type, and the normalization, leave alone what the spec sets. -/
theorem Carries.withDefaults (h : Carries s v) (cls : Option TypeClass) :
    Carries s (v.withRetryDefaults cls).normalized := by
  have hsame : ∀ p : String, (if normalizeRetryPolicy p = "" then normalizeRetryPolicy p
      else normalizeRetryPolicy (normalizeRetryPolicy p)) = normalizeRetryPolicy p := by
    intro p
    rw [normalizeRetryPolicy_idem, ite_self]
  have hpolicy : ∀ p ∈ s.retryPolicy, (v.withRetryDefaults cls).retryPolicy =
      some (some (normalizeRetryPolicy p)) := by
    intro p hp
    cases cls with
    | none => exact h.retryPolicy p hp
    | some cls =>
      show some (v.retryPolicy.getD cls.retryPolicy) = _
      rw [h.retryPolicy p hp]
      rfl
  have hmax : ∀ n ∈ s.maxRetries, (v.withRetryDefaults cls).maxRetries = some (some n) := by
    intro n hn
    cases cls with
    | none => exact h.maxRetries n hn
    | some cls =>
      show some (v.maxRetries.getD cls.maxRetries) = _
      rw [h.maxRetries n hn]
      rfl
  have hnorm : ∀ p ∈ s.retryPolicy, (v.withRetryDefaults cls).normalized.retryPolicy =
      some (some (normalizeRetryPolicy p)) := by
    intro p hp
    simp only [Vals.normalized, hpolicy p hp, Option.map_some, hsame]
  cases cls with
  | none => exact { h with retryPolicy := hnorm, maxRetries := hmax }
  | some cls => exact { h with retryPolicy := hnorm, maxRetries := hmax }

@[simp] theorem withDefaults_name (v : Vals) (cls : Option TypeClass) :
    (v.withRetryDefaults cls).normalized.name = v.name := by cases cls <;> rfl

@[simp] theorem withDefaults_channel (v : Vals) (cls : Option TypeClass) :
    (v.withRetryDefaults cls).normalized.channel = v.channel := by cases cls <;> rfl

@[simp] theorem withDefaults_parentId (v : Vals) (cls : Option TypeClass) :
    (v.withRetryDefaults cls).normalized.parentId = v.parentId := by cases cls <;> rfl

@[simp] theorem withDefaults_typeCode (v : Vals) (cls : Option TypeClass) :
    (v.withRetryDefaults cls).normalized.typeCode = v.typeCode := by cases cls <;> rfl

@[simp] theorem withDefaults_taskParams (v : Vals) (cls : Option TypeClass) :
    (v.withRetryDefaults cls).normalized.taskParams = v.taskParams := by cases cls <;> rfl

@[simp] theorem withDefaults_priority (v : Vals) (cls : Option TypeClass) :
    (v.withRetryDefaults cls).normalized.priority = v.priority := by cases cls <;> rfl

@[simp] theorem withDefaults_eta (v : Vals) (cls : Option TypeClass) :
    (v.withRetryDefaults cls).normalized.eta = v.eta := by cases cls <;> rfl

@[simp] theorem withDefaults_timeout (v : Vals) (cls : Option TypeClass) :
    (v.withRetryDefaults cls).normalized.timeout = v.timeout := by cases cls <;> rfl

theorem toVals_carries (s : TaskSpec) : Carries s s.toVals where
  typeCode := rfl
  taskParams := rfl
  name _ hn := hn
  channel c hc := by
    show s.channel.map some = _
    rw [Option.mem_def.1 hc]
    rfl
  priority := rfl
  eta := rfl
  timeout := rfl
  retryPolicy p hp := by
    show s.retryPolicy.map _ = _
    rw [Option.mem_def.1 hp]
    rfl
  maxRetries n hn := by
    show s.maxRetries.map some = _
    rw [Option.mem_def.1 hn]
    rfl

theorem childVals_ok {parent : Task} {total i : ℕ} (h : childVals E parent total i s = .ok v)
    (ht : Created parent.createUid v t) : ChildOfSpec parent total i s t := by
  unfold childVals at h
  cases hcls : E.getTaskType s.typeCode with
  | error e => rw [hcls] at h; cases h
  | ok cls =>
    rw [hcls] at h
    obtain rfl := Except.ok.inj h
    have hbase : Carries s { s.toVals with
        name := some (s.name.getD
          (parent.name ++ " [" ++ toString (i + 1) ++ "/" ++ toString total ++ "]"))
        parentId := some parent.id
        channel := some (some (s.channel.getD parent.channel)) } :=
      { toVals_carries s with
        name := fun n hn => by rw [Option.mem_def.1 hn]; rfl
        channel := fun c hc => by rw [Option.mem_def.1 hc]; rfl }
    have hname := ht.name
    have hchannel := ht.channel
    have hparent := ht.parentId
    rw [withDefaults_name] at hname
    rw [withDefaults_channel] at hchannel
    rw [withDefaults_parentId] at hparent
    refine ⟨(hbase.withDefaults cls).described ht, fun hn => ?_, fun hc => ?_, hparent,
      ht.createUid⟩
    · rw [← Option.some.inj hname, hn]
      rfl
    · rw [← Except.ok.inj hchannel, hc]
      rfl

theorem Carries.withChannelDefault (h : Carries s v) (cls : Option TypeClass) :
    Carries s (v.withChannelDefault cls) := by
  cases cls with
  | none => exact h
  | some cls =>
    refine { h with channel := fun c hc => ?_ }
    show some (v.channel.getD cls.defaultChannel) = _
    rw [h.channel c hc]
    rfl

theorem Carries.withName (h : Carries s v) (name : String) : Carries s (v.withName name) := by
  refine { h with name := fun n hn => ?_ }
  show some (v.name.getD name) = _
  rw [h.name n hn]
  rfl

/-- The name comes last in `create_tasks`; it could as well come before the retry defaults. -/
theorem withName_withRetryDefaults (v : Vals) (name : String) (cls : Option TypeClass) :
    (v.withRetryDefaults cls).withName name = (v.withName name).withRetryDefaults cls := by
  cases cls <;> rfl

theorem taskVals_ok (h : taskVals E s = .ok v) (ht : Created uid v t) :
    Described s t ∧ (s.name = none → t.name = s.typeCode) ∧ t.parentId = none ∧
      t.createUid = uid := by
  unfold taskVals at h
  cases hcls : E.getTaskType s.typeCode with
  | error e => rw [hcls] at h; cases h
  | ok cls =>
    rw [hcls] at h
    obtain rfl := Except.ok.inj h
    rw [withName_withRetryDefaults] at ht
    have hname := ht.name
    have hparent := ht.parentId
    rw [withDefaults_name] at hname
    rw [withDefaults_parentId] at hparent
    have hbase := ((toVals_carries s).withChannelDefault cls).withName s.typeCode
    refine ⟨(hbase.withDefaults cls).described ht, fun hn => ?_, hparent.trans ?_, ht.createUid⟩
    · have hnone : (s.toVals.withChannelDefault cls).name = none := by cases cls <;> exact hn
      change some ((s.toVals.withChannelDefault cls).name.getD s.typeCode) = _ at hname
      rw [← Option.some.inj hname, hnone]
      rfl
    · cases cls <;> rfl

theorem createRecords_ok {l : List Vals} (h : createRecords E uid l T = .ok T') :
    ∃ rows, T' = T.insert rows ∧ List.Forall₂ (Created uid) l rows := by
  unfold createRecords at h
  cases hrows : l.mapM (Vals.create E uid) with
  | error e => rw [hrows] at h; cases h
  | ok rows =>
    rw [hrows] at h
    exact ⟨rows, (Except.ok.inj h).symm,
      (Traverse.mapM_eq_ok_iff.1 hrows).imp fun _ _ => Vals.create_ok⟩

theorem createEach_ok {β : Type} {f : β → Except SpecError Vals} {R : β → Task → Prop} {l : List β}
    (hf : ∀ x v t, f x = .ok v → Created uid v t → R x t)
    (h : (l.mapM f >>= fun vals => createRecords E uid vals T) = .ok T') :
    ∃ rows, T' = T.insert rows ∧ List.Forall₂ R l rows := by
  obtain ⟨vals, hvals, h⟩ := bind_ok h
  obtain ⟨rows, rfl, hrows⟩ := createRecords_ok h
  exact ⟨rows, rfl, Traverse.forall₂_comp hf (Traverse.mapM_eq_ok_iff.1 hvals) hrows⟩

/-- **Children.** A wave of children that is created has one task for each spec, in order. -/
theorem childRecords_ok {parent : Task} {specs : List TaskSpec}
    (h : childRecords E parent specs T = .ok T') :
    ∃ rows, T' = T.insert rows ∧
      List.Forall₂ (fun p t => ChildOfSpec parent specs.length p.2 p.1 t) specs.zipIdx rows :=
  createEach_ok (fun _ _ _ hv ht => childVals_ok hv ht) h

/-- **Batch.** A batch of `create_tasks` that is created has one task for each spec, in order. -/
theorem taskRecords_ok {specs : List TaskSpec} (h : taskRecords E uid specs T = .ok T') :
    ∃ rows, T' = T.insert rows ∧ List.Forall₂ (fun s t => Described s t ∧
      (s.name = none → t.name = s.typeCode) ∧ t.parentId = none ∧ t.createUid = uid)
        specs rows :=
  createEach_ok (fun _ _ _ hv ht => taskVals_ok hv ht) h

/-! ## Specs with known retry policies

`GenericTaskQueue.TaskSpec` names its retry policy by what the selection and its aliases offer, and
the registry of an `Env` has classes that do so too. On these `childRecords` is `createChildren`. -/

end Tools

def RetryPolicyName.value : RetryPolicyName → String
  | .canonical .noRetry => "no_retry"
  | .canonical .retryKnown => "retry_known"
  | .canonical .retryAny => "retry_any"
  | .nonRetriable => "non_retriable"
  | .retriable => "retriable"

def TaskType.attributes (cls : TaskType) : Tools.TypeClass where
  retryPolicy := some cls.retryPolicy.value
  maxRetries := some cls.maxRetries
  defaultChannel := some cls.defaultChannel

def Env.typeEnv (E : Env) : Tools.TypeEnv where
  registeredTypes := E.reg.map fun p => (p.1, some p.2.attributes)
  activeTypes := E.activeTypes
  now := E.now

def TaskSpec.untyped (s : TaskSpec) (h : s.typeCode ≠ "") : Tools.TaskSpec where
  name := s.name
  channel := s.channel
  priority := s.priority
  eta := s.eta
  timeout := s.timeout
  retryPolicy := s.retryPolicy.map RetryPolicyName.value
  maxRetries := s.maxRetries
  typeCode := s.typeCode
  params := s.params
  named := h

def TaskError.toSpecError : TaskError → Tools.SpecError
  | .validationError msg => .validationError msg

namespace Tools

theorem getTaskType_typeEnv (E : Env) (code : TypeCode) :
    E.typeEnv.getTaskType code = .ok ((E.reg.lookup code).map TaskType.attributes) := by
  have hmap : ∀ l : Registry, (l.map fun p => (p.1, some p.2.attributes)).lookup code =
      (l.lookup code).map fun cls => some cls.attributes := by
    intro l
    induction l with
    | nil => rfl
    | cons p l ih =>
      rw [List.map_cons, List.lookup_cons, List.lookup_cons, ih]
      cases code == p.1 <;> rfl
  have h : E.typeEnv.registeredTypes.lookup code = _ := hmap E.reg
  unfold TypeEnv.getTaskType
  rw [h]
  cases E.reg.lookup code <;> rfl

theorem selected_value (p : RetryPolicyName) :
    selected (normalizeRetryPolicy p.value) = .ok (GenericTaskQueue.normalizeRetryPolicy p) := by
  rcases p with p | - | -
  · cases p <;> rfl
  · rfl
  · rfl

theorem selected_normalized {v : Vals} {p : Option RetryPolicyName} (cls : Option TaskType)
    (hv : v.retryPolicy = p.map fun p => some (normalizeRetryPolicy p.value)) :
    (required (v.withRetryDefaults (cls.map TaskType.attributes)).normalized.retryPolicy "no_retry"
      >>= selected) = .ok (GenericTaskQueue.normalizeRetryPolicy
        ((p.orElse fun _ => cls.map TaskType.retryPolicy).getD (.canonical .noRetry))) := by
  have hset : ∀ {w : Vals} {x : String}, w.retryPolicy = some (some x) →
      w.normalized.retryPolicy = some (some (if x = "" then x else normalizeRetryPolicy x)) := by
    intro w x hw
    show w.retryPolicy.map _ = _
    rw [hw]
    rfl
  cases p with
  | some p =>
    have hw : (v.withRetryDefaults (cls.map TaskType.attributes)).retryPolicy =
        some (some (normalizeRetryPolicy p.value)) := by
      cases cls with
      | none => exact hv
      | some cls => show some (v.retryPolicy.getD _) = _; rw [hv]; rfl
    rw [hset hw, normalizeRetryPolicy_idem, ite_self]
    exact selected_value p
  | none =>
    cases cls with
    | none =>
      show required (v.retryPolicy.map _) _ >>= selected = _
      rw [hv]
      rfl
    | some cls =>
      have hw : (v.withRetryDefaults ((some cls).map TaskType.attributes)).retryPolicy =
          some (some cls.retryPolicy.value) := by
        show some (v.retryPolicy.getD _) = _
        rw [hv]
        rfl
      have hne : cls.retryPolicy.value ≠ "" := by
        rcases cls.retryPolicy with p | - | -
        · cases p <;> decide
        · decide
        · decide
      rw [hset hw, if_neg hne]
      exact selected_value cls.retryPolicy

theorem childVals_typeEnv (E : Env) (parent : Task) (total i : ℕ) (s : GenericTaskQueue.TaskSpec)
    (h : s.typeCode ≠ "") : ∃ v, childVals E.typeEnv parent total i (s.untyped h) = .ok v := by
  unfold childVals
  rw [getTaskType_typeEnv]
  exact ⟨_, rfl⟩

theorem create_childVals (E : Env) (parent : Task) (total i : ℕ) (s : GenericTaskQueue.TaskSpec)
    (h : s.typeCode ≠ "") :
    (childVals E.typeEnv parent total i (s.untyped h) >>= Vals.create E.typeEnv parent.createUid) =
      if s.typeCode ∈ E.activeTypes then
        .ok (GenericTaskQueue.childVals E parent total i s).create
      else .error (.validationError ("Unknown task type '" ++ s.typeCode ++ "'.")) := by
  let base : Vals := { (s.untyped h).toVals with
    name := some (s.name.getD
      (parent.name ++ " [" ++ toString (i + 1) ++ "/" ++ toString total ++ "]"))
    parentId := some parent.id
    channel := some (some (s.channel.getD parent.channel)) }
  let cls := E.reg.lookup s.typeCode
  have hvals : childVals E.typeEnv parent total i (s.untyped h) =
      .ok (base.withRetryDefaults (cls.map TaskType.attributes)).normalized := by
    unfold childVals
    rw [show (s.untyped h).typeCode = s.typeCode from rfl, getTaskType_typeEnv]
    rfl
  have hcode : (base.withRetryDefaults (cls.map TaskType.attributes)).normalized.typeCode =
      s.typeCode := withDefaults_typeCode base _
  have hpolicy : s.retryPolicy.map (fun p => some (normalizeRetryPolicy p.value)) =
      base.retryPolicy := by
    show _ = (s.retryPolicy.map RetryPolicyName.value).map _
    rw [Option.map_map]
    rfl
  have hmax : ((base.withRetryDefaults (cls.map TaskType.attributes)).normalized.maxRetries.getD
      (some 0)).getD 0 = (s.maxRetries.orElse fun _ => cls.map TaskType.maxRetries).getD 0 := by
    have hbase : base.maxRetries = s.maxRetries.map some := rfl
    cases cls with
    | none =>
      show (base.maxRetries.getD (some 0)).getD 0 = _
      rw [hbase]
      cases s.maxRetries <;> rfl
    | some cls =>
      show (base.maxRetries.getD (some cls.maxRetries)).getD 0 = _
      rw [hbase]
      cases s.maxRetries <;> rfl
  rw [hvals]
  show Vals.create _ _ _ = _
  split_ifs with ha
  · rw [Vals.create_eq (hcode ▸ ha) (withDefaults_name base _)
      (by rw [withDefaults_channel]; rfl) (selected_normalized cls hpolicy.symm), hmax]
    simp only [withDefaults_typeCode, withDefaults_taskParams, withDefaults_priority,
      withDefaults_eta, withDefaults_timeout, withDefaults_parentId]
    rfl
  · rw [Vals.create_unknown (fun hc => ha (hcode ▸ hc)), hcode]

/-- **Agreement.** On specs with known retry policies the wave is that of `createChildren`. -/
theorem childRecords_typed (E : Env) (parent : Task) (T : Table)
    (specs : List { s : GenericTaskQueue.TaskSpec // s.typeCode ≠ "" }) :
    childRecords E.typeEnv parent (specs.map fun s => s.1.untyped s.2) T =
      (GenericTaskQueue.createChildren E parent (specs.map Subtype.val) T).mapError
        TaskError.toSpecError := by
  have hex : ∀ p : { s : GenericTaskQueue.TaskSpec // s.typeCode ≠ "" } × ℕ, ∃ v,
      childVals E.typeEnv parent specs.length p.2 (p.1.1.untyped p.1.2) = .ok v :=
    fun p => childVals_typeEnv E parent specs.length p.2 p.1.1 p.1.2
  obtain ⟨vals, hvals⟩ := Classical.skolem.1 hex
  have hrows : ((specs.map fun s => s.1.untyped s.2).zipIdx.mapM fun p : TaskSpec × ℕ =>
      childVals E.typeEnv parent (specs.map fun s => s.1.untyped s.2).length p.2 p.1) >>=
        (fun l => l.mapM (Vals.create E.typeEnv parent.createUid)) =
      (specs.zipIdx.find? fun p => ¬ p.1.1.typeCode ∈ E.activeTypes).elim
        (.ok (specs.zipIdx.map fun p =>
          (GenericTaskQueue.childVals E parent specs.length p.2 p.1.1).create))
        (fun p => .error (.validationError ("Unknown task type '" ++ p.1.1.typeCode ++ "'."))) := by
    rw [List.length_map, List.zipIdx_map, List.mapM_map, ← Traverse.mapM_guard]
    refine (Traverse.mapM_bind fun p _ => hvals p).trans ?_
    refine congrArg (fun f => specs.zipIdx.mapM f) (funext fun p => ?_)
    exact create_childVals E parent specs.length p.2 p.1.1 p.1.2
  have hfind : (specs.map Subtype.val).find? (fun s => s.typeCode ∉ E.activeTypes) =
      (specs.zipIdx.find? fun p => ¬ p.1.1.typeCode ∈ E.activeTypes).map fun p => p.1.1 := by
    have hfst := List.find?_map (f := Prod.fst) (l := specs.zipIdx)
      (p := fun s => decide (¬ s.1.typeCode ∈ E.activeTypes))
    rw [List.zipIdx_map_fst] at hfst
    rw [List.find?_map]
    exact (congrArg (Option.map Subtype.val) hfst).trans (Option.map_map ..)
  have hfuse : ∀ x : Except SpecError (List Vals),
      (x >>= fun l => createRecords E.typeEnv parent.createUid l T) =
        (x >>= fun l => l.mapM (Vals.create E.typeEnv parent.createUid)).map T.insert := by
    intro x
    cases x <;> rfl
  unfold childRecords GenericTaskQueue.createChildren
  rw [hfuse, hrows, hfind]
  cases specs.zipIdx.find? fun p => ¬ p.1.1.typeCode ∈ E.activeTypes with
  | some p => rfl
  | none =>
    show Except.ok (T.insert _) = Except.ok (T.insert _)
    rw [List.zipIdx_map, List.map_map, List.length_map]
    rfl

/-! ## The forms are equivalent -/

variable {E : TypeEnv} {uid : UserId} {T T' : Table}

/-- The children that a call creates for the specs. -/
def childWave (E : TypeEnv) (parent : Task) (specs : List TaskSpec) (T : Table) :
    Except SpecError Table := do
  E.taskTypeRegistry
  childRecords E parent specs T

/-- The tasks that a call of `create_tasks` creates for the specs. -/
def taskBatch (E : TypeEnv) (uid : UserId) (specs : List TaskSpec) (T : Table) :
    Except SpecError Table := do
  E.taskTypeRegistry
  taskRecords E uid specs T

/-- The wave that a plan describes: none, if it describes no spec. -/
def plannedWave (E : TypeEnv) (task : Task) (specs : List TaskSpec) (T : Table) :
    Except SpecError (Option Table) :=
  if specs.isEmpty then .ok none else (childWave E task specs T).map some

theorem registry_ok {α : Type} {x : Except SpecError α} {a : α}
    (h : (E.taskTypeRegistry >>= fun _ => x) = .ok a) : x = .ok a := by
  obtain ⟨-, -, h⟩ := bind_ok h
  exact h

theorem createChildren_form (parent : Task) (form : Form) :
    form.call (createChildren E parent) T = childWave E parent form.specs T := by
  have hc := collectSpecs_form form
  cases form <;> exact congrArg
    (fun c => E.taskTypeRegistry >>= fun _ => c >>= fun specs => childRecords E parent specs T) hc

theorem createTasks_form (form : Form) :
    form.call (createTasks E uid) T = taskBatch E uid form.specs T := by
  have hc := collectSpecs_form form
  cases form <;> exact congrArg
    (fun c => E.taskTypeRegistry >>= fun _ => c >>= fun specs => taskRecords E uid specs T) hc

theorem spawnPlan_form {plan : PlanForm} (hp : ¬ plan.Unpacked) (parent : Task) :
    spawnPlan E parent plan.value T = plannedWave E parent plan.specs T := by
  unfold spawnPlan plannedWave
  rw [normalizePlan_form hp]
  cases hspecs : plan.specs with
  | nil => rfl
  | cons s specs =>
    have hlist : createChildren E parent [.list ((s :: specs).map .spec)] .none .none {} T =
        childWave E parent ((s :: specs) ++ []) T :=
      createChildren_form parent (.positional [.list (s :: specs)])
    rw [List.append_nil] at hlist
    exact congrArg (Except.map some) hlist

/-- A tuple of specs, or of iterables of specs, spawns nothing. -/
theorem spawnPlan_tuple (l : List Item) (parent : Task) :
    spawnPlan E parent (.tuple (l.map Item.value)) T = .ok none ∨
      ∃ msg, spawnPlan E parent (.tuple (l.map Item.value)) T = .error (.valueError msg) ∨
        spawnPlan E parent (.tuple (l.map Item.value)) T = .error (.typeError msg) := by
  unfold spawnPlan
  rcases normalizePlan_items l with h | ⟨msg, h | h⟩
  · rw [h]
    exact .inl rfl
  · rw [h]
    exact .inr ⟨msg, .inl rfl⟩
  · rw [h]
    exact .inr ⟨msg, .inr rfl⟩

/-- Where no task type is active, a wave with a spec is refused for its type. -/
theorem plannedWave_refused (parent : Task) {specs : List TaskSpec} (h : specs ≠ []) :
    ∃ msg, plannedWave { registeredTypes := [], activeTypes := [], now := 0 } parent specs T =
      .error (.validationError msg) := by
  obtain ⟨s, specs, rfl⟩ := List.exists_cons_of_ne_nil h
  let E : TypeEnv := { registeredTypes := [], activeTypes := [], now := 0 }
  have hvals : ∀ p : TaskSpec × ℕ, ∃ v, childVals E parent (s :: specs).length p.2 p.1 = .ok v :=
    fun p => ⟨_, rfl⟩
  obtain ⟨vals, hvals⟩ := Classical.skolem.1 hvals
  have hall : (s :: specs).zipIdx.mapM (fun p => childVals E parent (s :: specs).length p.2 p.1) =
      .ok ((s :: specs).zipIdx.map vals) := Traverse.mapM_ok fun p _ => hvals p
  have hwave : childWave E parent (s :: specs) T =
      createRecords E parent.createUid ((s :: specs).zipIdx.map vals) T := by
    show (List.mapM _ _ >>= fun l => createRecords E parent.createUid l T) = _
    rw [hall]
    rfl
  have hunknown : (vals (s, 0)).create E parent.createUid =
      .error (.validationError ("Unknown task type '" ++ (vals (s, 0)).typeCode ++ "'.")) :=
    Vals.create_unknown List.not_mem_nil
  have hrefused : createRecords E parent.createUid ((s :: specs).zipIdx.map vals) T =
      .error (.validationError ("Unknown task type '" ++ (vals (s, 0)).typeCode ++ "'.")) := by
    show ((vals (s, 0) :: _).mapM (Vals.create E parent.createUid)).map T.insert = _
    rw [List.mapM_cons, hunknown]
    rfl
  exact ⟨_, congrArg (Except.map some) (hwave.trans hrefused)⟩

/-- A tuple that is taken for a pair spawns another wave than the one it holds, or raises another
error. -/
theorem spawnPlan_unpacked {l : List Item} (h : (PlanForm.tuple l).Unpacked) (parent : Task)
    (T : Table) : ∃ E, spawnPlan E parent (.tuple (l.map Item.value)) T ≠
      plannedWave E parent (l.flatMap Item.specs) T := by
  refine ⟨{ registeredTypes := [], activeTypes := [], now := 0 }, fun he => ?_⟩
  by_cases hspecs : l.flatMap Item.specs = []
  · have hskip : plannedWave { registeredTypes := [], activeTypes := [], now := 0 } parent
        (l.flatMap Item.specs) T = .ok none := if_pos (by rw [hspecs]; rfl)
    refine normalizePlan_tuple h ?_
    rw [hskip] at he
    obtain ⟨plan, hplan, -⟩ := bind_ok he
    rcases normalizePlan_items l with hok | ⟨msg, herr | herr⟩
    · rw [hok, hspecs]
      rfl
    · cases hplan.symm.trans herr
    · cases hplan.symm.trans herr
  · obtain ⟨msg, hrefused⟩ := plannedWave_refused (T := T) parent hspecs
    rw [hrefused] at he
    rcases spawnPlan_tuple l parent with hok | ⟨msg', herr | herr⟩
    · cases he.symm.trans hok
    · cases he.symm.trans herr
    · cases he.symm.trans herr

/-- **Forms of a wave.** What `create_children`, `spawn_children` and `create_tasks` create depends
on the sequence of specs that the form of the call describes, and so does the wave of a plan, in
every form but a tuple that is taken for a pair, which spawns nothing. A builder describes what its
calls describe, in order. One task is created for each spec, in order, with what the spec says;
children are numbered over the whole wave. -/
theorem wave_forms (form : Form) (plan : PlanForm) :
    (∀ E uid parent T,
      form.call (createChildren E parent) T = childWave E parent form.specs T ∧
      form.call (spawnChildren E parent) T = childWave E parent form.specs T ∧
      form.call (createTasks E uid) T = taskBatch E uid form.specs T) ∧
    ((∀ E parent T, spawnPlan E parent plan.value T = plannedWave E parent plan.specs T) ↔
      ¬ plan.Unpacked) ∧
    (∀ E parent T T' items,
      spawnPlan E parent (PlanForm.tuple items).value T ≠ .ok (some T')) ∧
    (∀ defaults calls, List.foldlM BuilderCall.run { defaults := defaults } calls =
      (calls.mapM (BuilderCall.describes defaults)).map fun ls => ⟨defaults, ls.flatten⟩) ∧
    (∀ E parent specs T T', childWave E parent specs T = .ok T' → ∃ rows, T' = T.insert rows ∧
      List.Forall₂ (fun p t => ChildOfSpec parent specs.length p.2 p.1 t) specs.zipIdx rows) ∧
    (∀ E uid specs T T', taskBatch E uid specs T = .ok T' → ∃ rows, T' = T.insert rows ∧
      List.Forall₂ (fun s t => Described s t ∧ (s.name = none → t.name = s.typeCode) ∧
        t.parentId = none ∧ t.createUid = uid) specs rows) := by
  refine ⟨fun E uid parent T => ⟨createChildren_form parent form, ?_, createTasks_form form⟩,
    ⟨fun h hp => ?_, fun hp E parent T => spawnPlan_form hp parent⟩,
    fun E parent T T' items h => ?_, builder_specs,
    fun E parent specs T T' h => childRecords_ok (registry_ok h),
    fun E uid specs T T' h => taskRecords_ok (registry_ok h)⟩
  · have hs := createChildren_form (E := E) (T := T) parent form
    cases form <;> exact hs
  · cases plan with
    | tuple items =>
      obtain ⟨E, hne⟩ := spawnPlan_unpacked hp
        { id := 1, name := "", typeCode := "", dateCreated := 0, createUid := 1 }
        ⟨[], List.nodup_nil⟩
      exact hne (h E _ _)
    | skipped => exact hp
    | list specs => exact hp
    | generator specs => exact hp
    | taskListSpec b => exact hp
    | pair iterable f hf hi => exact hp
  · rcases spawnPlan_tuple (E := E) (T := T) items parent with hok | ⟨msg, herr | herr⟩
    · cases h.symm.trans hok
    · cases h.symm.trans herr
    · cases h.symm.trans herr

/-- Two specs of one type, which the registry does not have. -/
def exportSpecs : List TaskSpec :=
  [{ typeCode := "export", named := by decide },
    { typeCode := "export", params := some (.ints [1]), named := by decide }]

def exportEnv : TypeEnv :=
  { registeredTypes := [], activeTypes := ["export"], now := 100 }

/-- The tuple is unpacked as a type code and a list of params, and the second spec is no list. -/
theorem tuple_not_wave : ¬ ∀ (E : TypeEnv) (parent : Task) (T : Table) (specs : List TaskSpec),
    spawnPlan E parent (.tuple (specs.map .spec)) T =
      spawnPlan E parent (.list (specs.map .spec)) T := by
  intro h
  have := congrArg Except.isOk (h exportEnv { id := 1, name := "root", typeCode := "pipeline"
                                              state := .running, dateCreated := 10, createUid := 2 }
    ⟨[], List.nodup_nil⟩ exportSpecs)
  revert this
  decide

end Tools

end GenericTaskQueue
