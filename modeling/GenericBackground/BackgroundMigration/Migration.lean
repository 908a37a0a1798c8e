import GenericBackground.TaskQueue.Enqueue
import GenericBackground.TaskQueue.ParentDecision

/-!
# Background migrations

The record of one migration and its task type. `scheduleMigration` (on a module upgrade) and
`actionForceReschedule` (by hand) enqueue a task; `execute` looks the migration file up and calls
its `migrate()`; the hooks of the task type mark the record.

Several ways lead out of `execute`: it raises, it returns without a call of `migrate()` if the
module or the file is not there any more, or it ends as `migrate()` does.
-/

namespace GenericBackgroundMigration

open GenericTaskQueue Traced

/-! ## The record -/

inductive MigrationState where
  | pending
  | done
  | failed
  deriving DecidableEq, Repr

structure MigrationKey where
  moduleName : String
  version : String
  name : String
  deriving DecidableEq, Repr

/-- A row of `generic.background.migration`. -/
structure Migration where
  name : String
  moduleName : String
  moduleVersion : String
  migrationName : String
  state : MigrationState := .pending
  taskId : Option TaskId := none
  dateCompleted : Option ℕ := none
  deriving DecidableEq, Repr

def typeCode : TypeCode := "task.type.background.migration"

def migrationTaskType : TaskType where
  singleton := false
  retryPolicy := .canonical .retryKnown

namespace MigrationKey

def path (k : MigrationKey) : String := k.moduleName ++ "/" ++ k.version ++ "/" ++ k.name

def uniqueKey (k : MigrationKey) : String :=
  "migration|" ++ k.moduleName ++ "|" ++ k.version ++ "|" ++ k.name

def params (k : MigrationKey) : Json :=
  .text ("\x7b\"module\": \"" ++ k.moduleName ++ "\", \"version\": \"" ++ k.version ++
    "\", \"name\": \"" ++ k.name ++ "\"\x7d")

/-- The call of `create_task` in `_enqueue_task`. -/
def createArgs (k : MigrationKey) : CreateArgs where
  typeCode := typeCode
  name := some ("Migration: " ++ k.path)
  params := some k.params
  uniqueKey := some k.uniqueKey

def create (k : MigrationKey) : Migration where
  name := k.path
  moduleName := k.moduleName
  moduleVersion := k.version
  migrationName := k.name

/-- The task runs this migration, or holds its key. -/
def owns (k : MigrationKey) (t : Task) : Bool :=
  (t.typeCode = typeCode ∧ t.taskParams = k.params) ∨ t.uniqueKey = some k.uniqueKey

end MigrationKey

/-- What `_get_migration_record` searches by. -/
def Migration.key (r : Migration) : MigrationKey := ⟨r.moduleName, r.moduleVersion, r.migrationName⟩

/-- The queue and the record of the migration, if there is one. -/
abbrev MigrationDb := Database (Option Migration)

/-! ## Enqueueing -/

/-- `_enqueue_task`; `none` if `create_task` raises. -/
def enqueueTask (E : Env) (uid : UserId) (k : MigrationKey) (D : MigrationDb) :
    Option MigrationDb :=
  match createTask E uid k.createArgs D.tasks with
  | (T, .created id) => some ⟨T, D.others.map fun r => { r with taskId := some id }⟩
  | (T, .existing id) => some ⟨T, D.others.map fun r => { r with taskId := some id }⟩
  | _ => none

/-- What `_schedule_migration` has written before it enqueues the task; `none` if it leaves a record
that is done. -/
def prepared (k : MigrationKey) : Option Migration → Option Migration
  | some r => if r.state = .done then none else some { r with state := .pending }
  | none => some k.create

/-- `_schedule_migration`, as `_schedule_module_migrations` calls it: an exception is logged, and
what has been written stays. -/
def scheduleMigration (E : Env) (uid : UserId) (k : MigrationKey) (D : MigrationDb) : MigrationDb :=
  match prepared k D.others with
  | none => D
  | some r => (enqueueTask E uid k { D with others := some r }).getD { D with others := some r }

/-- `action_force_reschedule`; an exception rolls it back. -/
def actionForceReschedule (E : Env) (uid : UserId) (admin : Bool) (k : MigrationKey)
    (D : MigrationDb) : MigrationDb :=
  match D.others with
  | none => D
  | some r =>
    if admin ∧ r.state = .failed then
      (enqueueTask E uid k
        { D with others := some { r with state := .pending, dateCompleted := none } }).getD D
    else D

/-! ## `execute` -/

/-- What `execute` asks: what `\d` matches, how Python quotes a string, where a module is, whether a
file is there, and whether it loads and then has a `migrate`. -/
structure Host where
  isDigit : Char → Bool
  repr : String → String
  getModulePath : String → Option String
  isFile : String → Bool
  load : String → Except Exc Bool

/-- `re.match` of an expression that ends in `$`: a newline at the end is left out. -/
def matchesLine (p : List Char → Bool) (s : String) : Bool :=
  p s.toList || (s.toList.getLast? = some '\n' && p s.toList.dropLast)

def isWordChar (c : Char) : Bool := c.isAlphanum || c = '_'

def moduleRe : String → Bool := matchesLine fun l => l ≠ [] && l.all isWordChar

def versionRe (H : Host) : String → Bool :=
  matchesLine fun l => (l.splitOn '.').length = 5 && (l.splitOn '.').all fun n =>
    n ≠ [] && n.all H.isDigit

def nameRe : String → Bool := matchesLine fun l => l ≠ [] && l.all fun c => isWordChar c || c = '-'

/-- The migration file in the directory of its module. -/
def MigrationKey.file (k : MigrationKey) (modulePath : String) : String :=
  modulePath ++ "/migrations/" ++ k.version ++ "/background-" ++ k.name ++ ".py"

/-- How `execute` begins. -/
inductive Entry where
  | raises (exc : Exc)
  | returns
  | calls (file : String)
  deriving DecidableEq

/-- `execute`, up to the call of `migrate()`. -/
def enter (H : Host) (k : MigrationKey) : Entry :=
  if ¬ moduleRe k.moduleName then .raises (.other ("Invalid module name: " ++ H.repr k.moduleName))
  else if ¬ versionRe H k.version then .raises (.other ("Invalid version: " ++ H.repr k.version))
  else if ¬ nameRe k.name then .raises (.other ("Invalid migration name: " ++ H.repr k.name))
  else match (H.getModulePath k.moduleName).filter (· ≠ "") with
    -- the module may have been uninstalled
    | none => .returns
    | some path =>
      if ¬ H.isFile (k.file path) then .returns
      else match H.load (k.file path) with
        | .error exc => .raises exc
        | .ok false => .raises (.other
            ("Migration file " ++ H.repr (k.file path) ++ " has no 'migrate' function."))
        | .ok true => .calls (k.file path)

/-- `migrate()` is there to be called: the module is found, and the file is in it. -/
def Found (H : Host) (k : MigrationKey) : Prop :=
  ∃ path, (H.getModulePath k.moduleName).filter (· ≠ "") = some path ∧
    H.isFile (k.file path) = true

/-- What a call of `migrate()` that returns has done to the queue. -/
structure MigrateRun where
  spawns : List TaskSpec := []
  waits : Bool := false
  result : Option Json := none
  deriving DecidableEq

/-- A call of `migrate()`, which returned or raised. -/
structure MigrateCall where
  file : String
  returned : Bool
  deriving DecidableEq, Repr

/-- `execute`, with what a call of `migrate()` would do. -/
def execute (H : Host) (k : MigrationKey) (migrate : Except Exc MigrateRun) :
    Run MigrateCall Exc MigrateRun :=
  match enter H k with
  | .raises exc => ⟨[], .error exc⟩
  | .returns => .ok {}
  | .calls file => ⟨[⟨file, migrate.isOk⟩], migrate⟩

/-! ## The hooks -/

/-- The hook returns, so that its changes are kept. -/
def returns : HookEnd → Bool
  | .returned => true
  | _ => false

/-- `_mark_migration` on the record that the parameters of the task name. -/
def markMigration (now : ℕ) (state : MigrationState) (t : Task) (r : Option Migration) :
    Option Migration :=
  r.map fun r => if t.taskParams = r.key.params then
    { r with state := state, dateCompleted := some now } else r

/-- `iter_child_results`, counted. -/
def childCounts (T : Table) (id : TaskId) : Json :=
  .text ("\x7b\"children_done\": " ++ toString ((T.children id).countP (·.state = .done)) ++
    ", \"children_cancelled\": " ++ toString ((T.children id).countP (·.state = .cancelled)) ++
    "\x7d")

/-- The hooks of `BackgroundMigrationTaskType`. The write of the record may fail, and then they end
so. -/
def migrationHooks (now : ℕ) (doneEnded failureEnded : HookEnd) : TypeHooks (Option Migration) where
  onAllChildrenDone t D := match doneEnded with
    | .returned =>
      .ok ({ D with others := markMigration now .done t D.others }, some (childCounts D.tasks t.id))
    | .raised exc => .error exc
    | .aborted => .error .transientError
  onFailure _ t D := match failureEnded with
    | .returned => .returned { D with others := markMigration now .failed t D.others }
    | .raised exc => .raised exc
    | .aborted => .aborted

/-- `_run_task_type_hook('on_success', result)`. -/
def onSuccess (now : ℕ) (ended : HookEnd) (t : Task) (D : MigrationDb) :
    Except Exc MigrationDb :=
  match ended with
  | .returned => .ok { D with others := markMigration now .done t D.others }
  | .raised _ => .ok D
  | .aborted => .error .transientError

/-- Phase 2 of a task thread once `execute` has returned; `read` is the task's row in its
snapshot. -/
def afterExecute (E : Env) (runner : RunnerId) (m : MigrateRun) (ended : HookEnd) (read : Task)
    (D : MigrationDb) : Except Exc MigrationDb :=
  match (createChildren E read m.spawns D.tasks).bind fun T =>
      if m.waits then T.modify read.id actionWaitChildren else .ok T with
  | .error (.validationError msg) => .error (.other msg)
  | .ok T =>
    if m.waits ∨ read.state = .waiting then .ok { D with tasks := T }
    else match onSuccess E.now ended read { D with tasks := T } with
      | .error exc => .error exc
      | .ok D' =>
        if finalizable finalStates (some runner) none read then
          (D'.actionDone E m.result read.id).result
        else .ok D'

end GenericBackgroundMigration
