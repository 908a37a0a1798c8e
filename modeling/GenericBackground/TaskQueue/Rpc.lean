import GenericBackground.TaskQueue.Enqueue

/-!
# What users call

The operations of the task model that a user reaches over RPC, for a user who is neither superuser
nor manager of the queue. Each is a transaction on the task table: it commits what it leaves, or
raises and changes nothing. `write` admits the fields of `userWritableFields` only; `create` takes a
value for any field, from the arguments of the call or from the context that comes with it, and the
values of further tasks for the field `child_ids`.

A user reads and writes the tasks that he has created, and no others (`checkAccess`). He has stored
no defaults for the model (`ir.default`).
-/

namespace GenericTaskQueue

/-- Why a call fails: an error that the model raises, or one of the ORM or the database. -/
inductive CallError where
  | accessError (msg : String)
  | validationError (msg : String)
  | valueError (msg : String)
  | alreadyScheduled (id : TaskId)
  | ormError
  deriving DecidableEq, Repr

def TaskError.toCallError : TaskError → CallError
  | .validationError msg => .validationError msg

/-! ## The values of a client -/

/-- Values by field; `none` is a field that is not given. The record `type_id` is named by its
code. -/
structure ClientVals where
  name : Option String := none
  typeId : Option TypeCode := none
  typeCode : Option TypeCode := none
  state : Option TaskState := none
  channel : Option Channel := none
  priority : Option ℤ := none
  taskParams : Option Json := none
  taskResult : Option (Option Json) := none
  taskError : Option (Option String) := none
  taskErrorData : Option (Option Json) := none
  workerId : Option (Option WorkerId) := none
  runnerId : Option (Option RunnerId) := none
  eta : Option (Option ℕ) := none
  retryPolicy : Option RetryPolicy := none
  maxRetries : Option ℤ := none
  retryCount : Option ℤ := none
  timeout : Option ℤ := none
  progress : Option ℤ := none
  parentId : Option (Option TaskId) := none
  phase : Option ℕ := none
  phaseData : Option (List (String × Json)) := none
  dateCreated : Option ℕ := none
  dateStarted : Option (Option ℕ) := none
  dateCompleted : Option (Option ℕ) := none
  uniqueKey : Option (Option String) := none
  deriving DecidableEq, Repr

def userWritableFields : List String :=
  ["name", "priority", "channel", "eta", "timeout", "max_retries", "retry_policy", "task_params"]

namespace ClientVals

def fields (v : ClientVals) : List (String × Bool) :=
  [("name", v.name.isSome), ("type_id", v.typeId.isSome), ("type_code", v.typeCode.isSome),
    ("state", v.state.isSome), ("channel", v.channel.isSome), ("priority", v.priority.isSome),
    ("task_params", v.taskParams.isSome), ("task_result", v.taskResult.isSome),
    ("task_error", v.taskError.isSome), ("task_error_data", v.taskErrorData.isSome),
    ("worker_id", v.workerId.isSome), ("runner_id", v.runnerId.isSome), ("eta", v.eta.isSome),
    ("retry_policy", v.retryPolicy.isSome), ("max_retries", v.maxRetries.isSome),
    ("retry_count", v.retryCount.isSome), ("timeout", v.timeout.isSome),
    ("progress", v.progress.isSome), ("parent_id", v.parentId.isSome), ("phase", v.phase.isSome),
    ("phase_data", v.phaseData.isSome), ("date_created", v.dateCreated.isSome),
    ("date_started", v.dateStarted.isSome), ("date_completed", v.dateCompleted.isSome),
    ("unique_key", v.uniqueKey.isSome)]

/-- What `write` refuses of a user. -/
def forbidden (v : ClientVals) : List String :=
  ((v.fields.filter Prod.snd).map Prod.fst).filter (· ∉ userWritableFields)

/-- The row with the values; `type_code` is that of the task type. -/
def write (v : ClientVals) (t : Task) : Task :=
  { t with
    name := v.name.getD t.name
    typeCode := v.typeId.getD t.typeCode
    state := v.state.getD t.state
    channel := v.channel.getD t.channel
    priority := v.priority.getD t.priority
    taskParams := v.taskParams.getD t.taskParams
    taskResult := v.taskResult.getD t.taskResult
    taskError := v.taskError.getD t.taskError
    taskErrorData := v.taskErrorData.getD t.taskErrorData
    workerId := v.workerId.getD t.workerId
    runnerId := v.runnerId.getD t.runnerId
    eta := v.eta.getD t.eta
    retryPolicy := v.retryPolicy.getD t.retryPolicy
    maxRetries := v.maxRetries.getD t.maxRetries
    retryCount := v.retryCount.getD t.retryCount
    timeout := v.timeout.getD t.timeout
    progress := v.progress.getD t.progress
    parentId := v.parentId.getD t.parentId
    phase := v.phase.getD t.phase
    phaseData := v.phaseData.getD t.phaseData
    dateCreated := v.dateCreated.getD t.dateCreated
    dateStarted := v.dateStarted.getD t.dateStarted
    dateCompleted := v.dateCompleted.getD t.dateCompleted
    uniqueKey := v.uniqueKey.getD t.uniqueKey }

/-- What is not given is taken from the defaults `d`. -/
def orDefaults (v d : ClientVals) : ClientVals where
  name := v.name.or d.name
  typeId := v.typeId.or d.typeId
  typeCode := v.typeCode.or d.typeCode
  state := v.state.or d.state
  channel := v.channel.or d.channel
  priority := v.priority.or d.priority
  taskParams := v.taskParams.or d.taskParams
  taskResult := v.taskResult.or d.taskResult
  taskError := v.taskError.or d.taskError
  taskErrorData := v.taskErrorData.or d.taskErrorData
  workerId := v.workerId.or d.workerId
  runnerId := v.runnerId.or d.runnerId
  eta := v.eta.or d.eta
  retryPolicy := v.retryPolicy.or d.retryPolicy
  maxRetries := v.maxRetries.or d.maxRetries
  retryCount := v.retryCount.or d.retryCount
  timeout := v.timeout.or d.timeout
  progress := v.progress.or d.progress
  parentId := v.parentId.or d.parentId
  phase := v.phase.or d.phase
  phaseData := v.phaseData.or d.phaseData
  dateCreated := v.dateCreated.or d.dateCreated
  dateStarted := v.dateStarted.or d.dateStarted
  dateCompleted := v.dateCompleted.or d.dateCompleted
  uniqueKey := v.uniqueKey.or d.uniqueKey

@[simp] theorem orDefaults_empty (v : ClientVals) : v.orDefaults {} = v := by
  unfold orDefaults
  simp only [Option.or_none]

/-- `type_code` is resolved unless there is a `type_id`. -/
def resolveType (E : Env) (v : ClientVals) : Except CallError ClientVals :=
  match v.typeId, v.typeCode with
  | none, some code =>
    if code ∈ E.activeTypes then .ok { v with typeId := some code, typeCode := none }
    else .error (.validationError ("Unknown task type '" ++ code ++ "'."))
  | _, _ => .ok v

/-- A new row, with `d` for the values not given: a field with no value has the default of the
model, and a type and a name are required. -/
def create (E : Env) (uid : UserId) (v d : ClientVals) : Except CallError Task := do
  let v := (← v.resolveType E).orDefaults d
  match v.typeId, v.name with
  | some code, some name =>
    .ok (v.write
      { id := 0, name := name, typeCode := code, dateCreated := E.now, createUid := uid })
  | _, _ => .error .ormError

end ClientVals

/-- The commands that a client may give for the field `child_ids` of a new task: to create a task,
with commands for its own `child_ids`, and to write to one. The other commands raise: they delete
tasks or write their parent. -/
inductive Commands where
  | nil
  | create (vals : ClientVals) (childIds rest : Commands)
  | update (id : TaskId) (vals : ClientVals) (rest : Commands)
  deriving DecidableEq, Repr

namespace Commands

def creates : Commands → List (ClientVals × Commands)
  | nil => []
  | create vals childIds rest => (vals, childIds) :: rest.creates
  | update _ _ rest => rest.creates

def updates : Commands → List (TaskId × ClientVals)
  | nil => []
  | create _ _ rest => rest.updates
  | update id vals rest => (id, vals) :: rest.updates

def depth : Commands → ℕ
  | nil => 0
  | create _ childIds rest => max (childIds.depth + 1) rest.depth
  | update _ _ rest => rest.depth

end Commands

/-- Of the context that a client sends with a call, the values `default_<field>`. -/
structure Context where
  defaults : ClientVals := {}
  defaultChildIds : Commands := .nil
  deriving DecidableEq, Repr

/-- The constraints of the table: the partial unique index, and the foreign key `parent_id`. -/
def Table.constrained (T : Table) : Bool :=
  (T.rows.filterMap activeKey).Nodup && T.rows.all fun t => t.parentId.all fun p => (T.get p).isSome

/-! ## The operations -/

/-- The `vals` of a task that a spec describes, in `create_tasks`. -/
def TaskSpec.clientVals (E : Env) (spec : TaskSpec) : ClientVals where
  name := some (spec.name.getD spec.typeCode)
  typeCode := some spec.typeCode
  channel := spec.channel.or ((E.reg.lookup spec.typeCode).map TaskType.defaultChannel)
  priority := spec.priority
  taskParams := some (spec.params.getD (.text "{}"))
  eta := spec.eta.map some
  retryPolicy := (spec.retryPolicy.or ((E.reg.lookup spec.typeCode).map TaskType.retryPolicy)).map
    normalizeRetryPolicy
  maxRetries := spec.maxRetries.or ((E.reg.lookup spec.typeCode).map TaskType.maxRetries)
  timeout := spec.timeout

/-- The `vals` of `create_task`. -/
def CreateArgs.clientVals (E : Env) (c : CreateArgs) : ClientVals where
  name := some (c.name.getD c.typeCode)
  typeCode := some c.typeCode
  channel := some (c.channel.getD
    (((E.reg.lookup c.typeCode).map TaskType.defaultChannel).getD "default"))
  priority := some c.priority
  taskParams := some (c.params.getD (.text "{}"))
  eta := c.eta.map some
  retryPolicy := some (normalizeRetryPolicy (c.retryPolicy.getD
    (((E.reg.lookup c.typeCode).map TaskType.retryPolicy).getD (.canonical .noRetry))))
  maxRetries := some (c.maxRetries.getD
    (((E.reg.lookup c.typeCode).map TaskType.maxRetries).getD 0))
  timeout := some c.timeout
  parentId := (c.parentId.filter (· ≠ 0)).map some
  uniqueKey := c.key.map some

def overrideFields : List String :=
  ["name", "channel", "priority", "eta", "timeout", "retry_policy", "max_retries"]

namespace Rpc

/-- The record rule of a user, `create_uid = user`. -/
def checkAccess (uid : UserId) (ids : List TaskId) (T : Table) : Except CallError Unit :=
  if ids.all fun id => (T.get id).any (·.createUid = uid) then .ok () else .error .ormError

/-- `write`; `child_ids` is another field that it refuses. -/
def write (uid : UserId) (ids : List TaskId) (vals : ClientVals) (T : Table) :
    Except CallError Table :=
  if vals.forbidden ≠ [] then
    .error (.accessError ("You cannot modify fields: " ++
      ", ".intercalate (vals.forbidden.insertionSort (· ≤ ·)) ++
      ". Use the task action buttons instead."))
  else (checkAccess uid ids T).map fun _ => T.updateAll ids vals.write

/-- The constraints are checked when a statement ends. -/
def checked (T : Table) : Except CallError Table :=
  if T.constrained then .ok T else .error .ormError

/-- The tasks to create below a batch, whose rows have the ids from `id` on. -/
def below (id : TaskId) (batch : List (ClientVals × Commands)) : List (ClientVals × Commands) :=
  batch.zipIdx.flatMap fun r => r.1.2.creates.map fun c =>
    ({ c.1 with parentId := some (some (id + r.2)) }, c.2)

/-- The number of levels. -/
def depth (batch : List (ClientVals × Commands)) : ℕ :=
  (batch.map fun r => r.2.depth + 1).foldr max 0

/-- The ORM inserts a batch and goes through the commands for its `child_ids`, level by level. The
context reaches the first level only. -/
def createBatch (E : Env) (uid : UserId) : ℕ → ClientVals → List (ClientVals × Commands) → Table →
    Except CallError Table
  | 0, _, _, T => .ok T
  | fuel + 1, d, batch, T => do
    let new ← batch.mapM fun r => r.1.create E uid d
    let T₁ ← checked (T.insert new)
    let T₂ ← (batch.flatMap fun r => r.2.updates).foldlM (fun T u => write uid [u.1] u.2 T) T₁
    createBatch E uid fuel {} (below T.nextId batch) T₂

/-- `create`: the client's values for the fields of the ORM's log are dropped. -/
def create (E : Env) (uid : UserId) (ctx : Context)
    (valsList : List (ClientVals × Option Commands)) (T : Table) : Except CallError Table :=
  let batch := valsList.map fun r => (r.1, r.2.getD ctx.defaultChildIds)
  createBatch E uid (depth batch) ctx.defaults batch T

def createTask (E : Env) (uid : UserId) (ctx : Context) (c : CreateArgs) (T : Table) :
    Except CallError Table :=
  match c.key.bind fun a => T.rows.find? fun t => activeKey t = some a with
  | some t => if c.onConflict = "raise" then .error (.alreadyScheduled t.id) else .ok T
  | none => create E uid ctx [(c.clientVals E, none)] T

/-- The values for each of the tasks of `create_tasks`. -/
def specVals (E : Env) (typeCode : TypeCode) (paramsList : List (Option Json))
    (common : TaskSpec) : List (ClientVals × Option Commands) :=
  paramsList.map fun params =>
    ({ common with typeCode := typeCode, params := params }.clientVals E, none)

/-- `create_tasks` with a type code and a list of params: no `TaskSpec` can be passed over RPC.
`unknown` are the keyword arguments that no spec has. -/
def createTasks (E : Env) (uid : UserId) (ctx : Context) (typeCode : Option TypeCode)
    (paramsList : List (Option Json)) (unknown : List String) (common : TaskSpec) (T : Table) :
    Except CallError Table :=
  if paramsList = [] then .ok T
  else if unknown ≠ [] then
    .error (.valueError ("Unknown TaskSpec field(s): " ++
      ", ".intercalate (unknown.insertionSort (· ≤ ·)) ++ ". Valid overrides: " ++
      ", ".intercalate overrideFields ++ "."))
  else match typeCode with
    | none => .error (.valueError "TaskSpec.type_code must be a non-empty string, got None")
    | some "" => .error (.valueError "TaskSpec.type_code must be a non-empty string, got ''")
    | some code => create E uid ctx (specVals E code paramsList common) T

/-- `action_cancel`: of the children, those that the user may read. -/
def actionCancel (E : Env) (uid : UserId) (ids : List TaskId) (T : Table) :
    Except CallError Table :=
  (checkAccess uid ids T).bind fun _ =>
    match (ids.filterMap T.get).forM (checkTransition .cancelled) with
    | .error e => .error e.toCallError
    | .ok _ => .ok (T.updateAll
        (Table.cancelled T.rows.length (T.rows.filter (·.createUid = uid)) ids)
        fun t => { t with state := .cancelled, dateCompleted := some E.now })

/-- `action_retry`, record after record. -/
def actionRetry (uid : UserId) (ids : List TaskId) (eta : Option ℕ) (T : Table) :
    Except CallError Table :=
  (checkAccess uid ids T).bind fun _ =>
    match ids.foldlM (fun T id => T.modify id (GenericTaskQueue.actionRetry eta)) T with
    | .error e => .error e.toCallError
    | .ok T' => .ok T'

end Rpc

/-- **Agreement.** With an empty context, the task that `create_task` creates is the one of
`CreateArgs.vals`. -/
theorem CreateArgs.clientVals_create {E : Env} {uid : UserId} {c : CreateArgs}
    (h : c.typeCode ∈ E.activeTypes) :
    (c.clientVals E).create E uid {} = .ok (c.vals E uid 0).create := by
  have hres : (c.clientVals E).resolveType E =
      .ok { c.clientVals E with typeId := some c.typeCode, typeCode := none } := if_pos h
  unfold ClientVals.create
  rw [hres]
  show Except.ok _ = _
  rw [ClientVals.orDefaults_empty]
  refine congrArg Except.ok ?_
  unfold ClientVals.write clientVals vals TaskVals.create
  simp only [Option.getD_some, Option.getD_none]
  cases c.eta <;> cases c.parentId.filter (· ≠ 0) <;> cases c.key <;> rfl

inductive UserCall where
  | create (valsList : List (ClientVals × Option Commands))
  | write (ids : List TaskId) (vals : ClientVals)
  | createTask (c : CreateArgs)
  | createTasks (typeCode : Option TypeCode) (paramsList : List (Option Json))
      (unknown : List String) (common : TaskSpec)
  | actionCancel (ids : List TaskId)
  | actionRetry (ids : List TaskId) (eta : Option ℕ)
  deriving DecidableEq

def UserCall.run (E : Env) (uid : UserId) (ctx : Context) (T : Table) :
    UserCall → Except CallError Table
  | .create valsList => Rpc.create E uid ctx valsList T
  | .write ids vals => Rpc.write uid ids vals T
  | .createTask c => Rpc.createTask E uid ctx c T
  | .createTasks typeCode paramsList unknown common =>
    Rpc.createTasks E uid ctx typeCode paramsList unknown common T
  | .actionCancel ids => Rpc.actionCancel E uid ids T
  | .actionRetry ids eta => Rpc.actionRetry uid ids eta T

/-- The table once the transaction has ended: what fails, or breaks a constraint, changes
nothing. -/
def Table.commit {ε : Type} (T : Table) (r : Except ε Table) : Table :=
  match r with
  | .ok T' => if T'.constrained then T' else T
  | .error _ => T

end GenericTaskQueue
