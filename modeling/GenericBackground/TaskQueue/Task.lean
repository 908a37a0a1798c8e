import Mathlib.Algebra.Group.Nat.Defs
import Mathlib.Data.Nat.Notation
import Mathlib.Data.Int.Notation
import Mathlib.Tactic.Common

/-!
# Tasks and their state transitions

The record of `generic.task.queue.task`, the table `ALLOWED_TRANSITIONS`, and the actions of the
model on one record. An action reads the record under the caller's lock or snapshot and returns
the record it writes, or the `ValidationError` it raises. Bus notifications are not modelled.

`handleLostExecution` and `handleFailure` are the decisions of crash recovery and of a task
thread's failure handler, with the retry schedule (`retryEta`) and policy (`shouldAutoRetry`)
that they use. Times are in seconds.
-/

namespace GenericTaskQueue

abbrev TaskId := ℕ
abbrev WorkerId := ℕ
abbrev UserId := ℕ
/-- A claim-time uuid; it is only ever compared for equality. -/
abbrev RunnerId := ℕ
abbrev TypeCode := String
abbrev Channel := String

/-! ## States -/

inductive TaskState where
  | pending
  | assigned
  | running
  | stuck
  | waiting
  | done
  | failed
  | cancelled
  deriving DecidableEq, Repr

/-- The value stored in the database. -/
def TaskState.value : TaskState → String
  | pending => "pending"
  | assigned => "assigned"
  | running => "running"
  | stuck => "stuck"
  | waiting => "waiting"
  | done => "done"
  | failed => "failed"
  | cancelled => "cancelled"

def allowedTransitions : TaskState → List TaskState
  | .pending => [.assigned, .cancelled]
  | .assigned => [.running, .pending, .cancelled]
  | .running => [.done, .failed, .waiting, .stuck, .cancelled]
  | .stuck => [.done, .failed, .pending, .cancelled]
  | .waiting => [.done, .failed, .cancelled]
  | .failed => [.pending, .cancelled]
  | .done => []
  | .cancelled => []

/-- `ACTIVE_STATES`: not yet resolved. -/
def activeStates : List TaskState := [.pending, .assigned, .running, .stuck, .waiting]

def terminalStates : List TaskState := [.done, .failed, .cancelled]

/-- The states of a task that a worker has claimed and not let go: the guard of a singleton claim,
and the states that crash recovery looks at. -/
def inFlightStates : List TaskState := [.assigned, .running, .stuck]

inductive RetryPolicy where
  | noRetry
  | retryKnown
  | retryAny
  deriving DecidableEq, Repr

/-- A JSON value. Lists of integers are kept apart, because the queue reads the ids it stored;
any other array or object is its serialized text. -/
inductive Json where
  | null
  | int (n : ℤ)
  | str (s : String)
  | ints (l : List ℤ)
  | text (s : String)
  deriving DecidableEq, Repr

/-! ## The record -/

/-- A row of `generic.task.queue.task`. -/
structure Task where
  id : TaskId
  name : String
  typeCode : TypeCode
  state : TaskState := .pending
  channel : Channel := "default"
  priority : ℤ := 5
  taskParams : Json := .text "{}"
  taskResult : Option Json := none
  taskError : Option String := none
  taskErrorData : Option Json := none
  workerId : Option WorkerId := none
  runnerId : Option RunnerId := none
  eta : Option ℕ := none
  retryPolicy : RetryPolicy := .noRetry
  maxRetries : ℤ := 0
  retryCount : ℤ := 0
  timeout : ℤ := 0
  progress : ℤ := 0
  parentId : Option TaskId := none
  phase : ℕ := 0
  phaseData : List (String × Json) := []
  dateCreated : ℕ
  dateStarted : Option ℕ := none
  dateCompleted : Option ℕ := none
  uniqueKey : Option String := none
  createUid : UserId
  deriving DecidableEq, Repr

/-- The values with which a task is enqueued; every other field has its default. -/
structure TaskVals where
  id : TaskId
  name : String
  typeCode : TypeCode
  channel : Channel := "default"
  priority : ℤ := 5
  taskParams : Json := .text "{}"
  eta : Option ℕ := none
  retryPolicy : RetryPolicy := .noRetry
  maxRetries : ℤ := 0
  timeout : ℤ := 0
  parentId : Option TaskId := none
  uniqueKey : Option String := none
  dateCreated : ℕ
  createUid : UserId
  deriving DecidableEq, Repr

/-- `create`: a fresh pending task. -/
def TaskVals.create (v : TaskVals) : Task where
  id := v.id
  name := v.name
  typeCode := v.typeCode
  channel := v.channel
  priority := v.priority
  taskParams := v.taskParams
  eta := v.eta
  retryPolicy := v.retryPolicy
  maxRetries := v.maxRetries
  timeout := v.timeout
  parentId := v.parentId
  uniqueKey := v.uniqueKey
  dateCreated := v.dateCreated
  createUid := v.createUid

/-- What a user may write: `_user_writable_fields`; `none` leaves the field alone. -/
structure UserVals where
  name : Option String := none
  priority : Option ℤ := none
  channel : Option Channel := none
  eta : Option (Option ℕ) := none
  timeout : Option ℤ := none
  maxRetries : Option ℤ := none
  retryPolicy : Option RetryPolicy := none
  taskParams : Option Json := none
  deriving DecidableEq, Repr

/-- `write` of whitelisted fields. -/
def UserVals.write (v : UserVals) (t : Task) : Task :=
  { t with
    name := v.name.getD t.name
    priority := v.priority.getD t.priority
    channel := v.channel.getD t.channel
    eta := v.eta.getD t.eta
    timeout := v.timeout.getD t.timeout
    maxRetries := v.maxRetries.getD t.maxRetries
    retryPolicy := v.retryPolicy.getD t.retryPolicy
    taskParams := v.taskParams.getD t.taskParams }

/-! ## Transitions of one record -/

inductive TaskError where
  | validationError (msg : String)
  deriving DecidableEq, Repr

def checkTransition (newState : TaskState) (t : Task) : Except TaskError Unit :=
  if newState ∈ allowedTransitions t.state then .ok ()
  else .error (.validationError ("Cannot transition task '" ++ t.name ++ "' from '" ++
    t.state.value ++ "' to '" ++ newState.value ++ "'."))

/-- pending → assigned -/
def actionAssign (worker : WorkerId) (t : Task) : Except TaskError Task := do
  checkTransition .assigned t
  return { t with state := .assigned, workerId := some worker }

/-- assigned → running -/
def actionStart (now : ℕ) (t : Task) : Except TaskError Task := do
  checkTransition .running t
  return { t with state := .running, dateStarted := some now, progress := 0 }

/-- running → stuck -/
def actionStuck (t : Task) : Except TaskError Task := do
  checkTransition .stuck t
  return { t with state := .stuck }

/-- running/stuck/waiting → done -/
def actionDone (now : ℕ) (result : Option Json) (t : Task) : Except TaskError Task := do
  checkTransition .done t
  return { t with
    state := .done, taskResult := result, dateCompleted := some now, progress := 100 }

/-- running → waiting -/
def actionWaitChildren (t : Task) : Except TaskError Task := do
  checkTransition .waiting t
  return { t with state := .waiting }

/-- running/stuck/waiting → failed; `task_error_data` is written only when given. -/
def actionFail (now : ℕ) (error : Option String) (errorData : Option Json) (t : Task) :
    Except TaskError Task := do
  checkTransition .failed t
  return { t with
    state := .failed, taskError := error, dateCompleted := some now
    taskErrorData := errorData.orElse fun _ => t.taskErrorData }

/-- failed → pending, by hand -/
def actionRetry (eta : Option ℕ) (t : Task) : Except TaskError Task :=
  if t.state = .failed then
    .ok { t with
      state := .pending, workerId := none, runnerId := none, taskError := none, progress := 0
      eta := eta }
  else .error (.validationError "Only failed tasks can be retried.")

/-- `_action_auto_retry`: back to pending, counting an attempt. The caller has checked policy and
budget; there is no `_check_transition`. -/
def actionAutoRetry (eta : Option ℕ) (t : Task) : Task :=
  { t with
    state := .pending, workerId := none, runnerId := none, taskError := none, progress := 0
    eta := eta, retryCount := t.retryCount + 1 }

/-- `_action_requeue`: assigned → pending, not counting an attempt. -/
def actionRequeue (t : Task) : Except TaskError Task := do
  checkTransition .pending t
  return { t with state := .pending, workerId := none, runnerId := none }

/-- `action_cancel` on the record itself. -/
def actionCancel (now : ℕ) (t : Task) : Except TaskError Task := do
  checkTransition .cancelled t
  return { t with state := .cancelled, dateCompleted := some now }

/-- `store_phase_data`: the passed keys are updated, the others kept. -/
def storePhaseData (vals : List (String × Json)) (t : Task) : Task :=
  { t with phaseData := vals ++ t.phaseData.filter fun kv => kv.1 ∉ vals.map Prod.fst }

/-- The write of `_start_wave`: the phase, and the ids of its wave if it has spawned one. -/
def enterPhase (phase : ℕ) (childIds : Option (List TaskId)) (t : Task) : Task :=
  { t with
    phase := phase
    phaseData := childIds.elim t.phaseData fun ids =>
      (storePhaseData [("child_ids", .ints (ids.map Int.ofNat))] t).phaseData }

/-- `update_progress`: the value is clamped to 0..100. -/
def setProgress (value : ℤ) (t : Task) : Task := { t with progress := max 0 (min 100 value) }

/-- The `WHERE` of `_acquire_finalization`; a `none` runner or worker skips that check. -/
def finalizable (states : List TaskState) (runner : Option RunnerId) (worker : Option WorkerId)
    (t : Task) : Bool :=
  t.state ∈ states && (runner.isNone || t.runnerId = runner) &&
    (worker.isNone || t.workerId = worker)

/-- The states in which a task thread's final write is still allowed. -/
def finalStates : List TaskState := [.running, .stuck]

/-! ## Retry policy and schedule -/

/-- An exception raised by task code: `RetryTask`, one of `KNOWN_TRANSIENT_ERRORS`, or any other,
with its `str()`. -/
inductive Exc where
  | retryTask (after : Option ℕ)
  | transientError
  | other (text : String)
  deriving DecidableEq, Repr

inductive RetryDelays where
  | table (delays : List (ℤ × ℕ))
  | exponential
  deriving DecidableEq, Repr

/-- A retry policy as task types and callers name it: the last two are deprecated. -/
inductive RetryPolicyName where
  | canonical (policy : RetryPolicy)
  | nonRetriable
  | retriable
  deriving DecidableEq, Repr

def normalizeRetryPolicy : RetryPolicyName → RetryPolicy
  | .canonical policy => policy
  | .nonRetriable => .noRetry
  | .retriable => .retryAny

/-- The attributes of a task type class that the queue reads. -/
structure TaskType where
  serviceName : Option String := none
  singleton : Bool := true
  retryPolicy : RetryPolicyName := .canonical .noRetry
  maxRetries : ℤ := 0
  defaultChannel : Channel := "default"
  retryDelays : RetryDelays := .table []
  deriving DecidableEq, Repr

/-- `get_initialized_types()`: the task type classes by name. -/
abbrev Registry := List (TypeCode × TaskType)

/-- `_retry_eta`: when the next attempt may run, `none` for immediately. -/
def retryEta (reg : Registry) (now : ℕ) (typeCode : TypeCode) (retryCount : ℤ) : Option ℕ :=
  match reg.lookup typeCode with
  | none => none
  | some cls =>
    let delay := match cls.retryDelays with
      | .table delays => (delays.lookup retryCount).getD 0
      | .exponential => min (2 ^ retryCount.toNat) 3600
    if delay = 0 then none else some (now + delay)

/-- `_should_auto_retry`; no exception means crash recovery. -/
def shouldAutoRetry (policy : RetryPolicy) (exc : Option Exc) : Bool :=
  match policy, exc with
  | .noRetry, _ => false
  | .retryAny, _ => true
  | .retryKnown, none => true
  | .retryKnown, some (.retryTask _) => true
  | .retryKnown, some .transientError => true
  | .retryKnown, some _ => false

/-- Whether the failure handler requeues the task. -/
def retriesFailure (exc : Exc) (t : Task) : Bool :=
  shouldAutoRetry t.retryPolicy (some exc) ∧ t.retryCount < t.maxRetries

/-- The failure handler of `_task_thread_target`, once it owns the task `t`: requeue or fail with
the traceback, as it has decided on the record that it `read` before. -/
def handleFailure (reg : Registry) (now : ℕ) (exc : Exc) (traceback : String) (read t : Task) :
    Except TaskError Task :=
  if retriesFailure exc read then
    .ok (actionAutoRetry (match exc with
      | .retryTask (some after) => some (now + after)
      | _ => retryEta reg now read.typeCode read.retryCount) t)
  else actionFail now (some traceback) none t

/-- `_handle_lost_execution`, once it holds the lock: an execution that never started is requeued,
one with budget left is retried, any other is failed with its runner cleared first. -/
def handleLostExecution (reg : Registry) (now : ℕ) (error : String) (t : Task) :
    Except TaskError Task :=
  if t.state = .assigned then actionRequeue t
  else if t.retryPolicy ≠ .noRetry ∧ t.retryCount < t.maxRetries then
    .ok (actionAutoRetry (retryEta reg now t.typeCode t.retryCount) t)
  else actionFail now (some error) none { t with runnerId := none }

/-! ## The actions by what they return -/

theorem bind_ok {ε α β : Type} {x : Except ε α} {f : α → Except ε β} {b : β}
    (h : x >>= f = .ok b) : ∃ a, x = .ok a ∧ f a = .ok b := by
  cases x with
  | error e => cases h
  | ok a => exact ⟨a, rfl, h⟩

theorem map_ok {ε α β : Type} {x : Except ε α} {f : α → β} {b : β} (h : x.map f = .ok b) :
    ∃ a, x = .ok a ∧ f a = b := by
  cases x with
  | error e => cases h
  | ok a => exact ⟨a, rfl, Except.ok.inj h⟩

theorem mem_mapM_ok {α β ε : Type} {f : α → Except ε β} : ∀ {l : List α} {l' : List β},
    l.mapM f = .ok l' → ∀ b ∈ l', ∃ a ∈ l, f a = .ok b := by
  intro l
  induction l with
  | nil =>
    intro l' h b hb
    obtain rfl := Except.ok.inj h
    cases hb
  | cons a l ih =>
    intro l' h b hb
    rw [List.mapM_cons] at h
    obtain ⟨b₀, h1, h2⟩ := bind_ok h
    obtain ⟨bs, h3, h4⟩ := bind_ok h2
    obtain rfl := Except.ok.inj h4
    rcases List.mem_cons.1 hb with rfl | hb
    · exact ⟨a, List.mem_cons_self, h1⟩
    · obtain ⟨a', ha', hfa⟩ := ih h3 b hb
      exact ⟨a', List.mem_cons_of_mem _ ha', hfa⟩

theorem checkTransition_ok {s : TaskState} {t : Task} :
    checkTransition s t = .ok () ↔ s ∈ allowedTransitions t.state := by
  unfold checkTransition; split_ifs with h <;> simp [h]

theorem checked_ok {s : TaskState} {t t' u : Task}
    (h : (do checkTransition s t; return u : Except TaskError Task) = .ok t') :
    s ∈ allowedTransitions t.state ∧ t' = u := by
  obtain ⟨_, hs, h⟩ := bind_ok h
  exact ⟨checkTransition_ok.1 hs, (Except.ok.inj h).symm⟩

theorem checked_of_mem {s : TaskState} {t u : Task} (hs : s ∈ allowedTransitions t.state) :
    (do checkTransition s t; return u : Except TaskError Task) = .ok u := by
  rw [checkTransition_ok.2 hs]; rfl

theorem checked_error {s : TaskState} {t u : Task} (hs : s ∉ allowedTransitions t.state) :
    ∃ e, (do checkTransition s t; return u : Except TaskError Task) = .error e := by
  unfold checkTransition; rw [if_neg hs]; exact ⟨_, rfl⟩

theorem actionRetry_ok {eta : Option ℕ} {t t' : Task} (h : actionRetry eta t = .ok t') :
    t.state = .failed ∧ t' = { t with
      state := .pending, workerId := none, runnerId := none, taskError := none, progress := 0
      eta := eta } := by
  unfold actionRetry at h
  split_ifs at h with hf
  exact ⟨hf, (Except.ok.inj h).symm⟩

theorem handleFailure_cases {reg : Registry} {now : ℕ} {exc : Exc} {tb : String} {read t t' : Task}
    (h : handleFailure reg now exc tb read t = .ok t') :
    (retriesFailure exc read = true ∧ ∃ eta, t' = actionAutoRetry eta t) ∨
      (retriesFailure exc read = false ∧ actionFail now (some tb) none t = .ok t') := by
  unfold handleFailure at h
  split_ifs at h with hr
  · exact .inl ⟨hr, _, (Except.ok.inj h).symm⟩
  · exact .inr ⟨Bool.eq_false_iff.2 hr, h⟩

theorem handleLostExecution_cases {reg : Registry} {now : ℕ} {error : String} {t t' : Task}
    (h : handleLostExecution reg now error t = .ok t') :
    (t.state = .assigned ∧ actionRequeue t = .ok t') ∨
      (t.state ≠ .assigned ∧ (t.retryPolicy ≠ .noRetry ∧ t.retryCount < t.maxRetries) ∧
        t' = actionAutoRetry (retryEta reg now t.typeCode t.retryCount) t) ∨
      (t.state ≠ .assigned ∧ ¬ (t.retryPolicy ≠ .noRetry ∧ t.retryCount < t.maxRetries) ∧
        actionFail now (some error) none { t with runnerId := none } = .ok t') := by
  unfold handleLostExecution at h
  split_ifs at h with ha hr
  · exact .inl ⟨ha, h⟩
  · exact .inr (.inl ⟨ha, hr, (Except.ok.inj h).symm⟩)
  · exact .inr (.inr ⟨ha, hr, h⟩)

theorem finalizable_iff {states : List TaskState} {runner : Option RunnerId}
    {worker : Option WorkerId} {t : Task} : finalizable states runner worker t = true ↔
      t.state ∈ states ∧ (∀ r, runner = some r → t.runnerId = some r) ∧
        ∀ w, worker = some w → t.workerId = some w := by
  unfold finalizable
  cases runner <;> cases worker <;> simp [and_assoc]

theorem final_in_flight {st : TaskState} (h : st ∈ finalStates) : st ∈ inFlightStates := by
  revert h; cases st <;> decide

theorem finalizable_ne {states : List TaskState} {runner : Option RunnerId}
    {worker : Option WorkerId} {t : Task} {c : TaskState}
    (h : finalizable states runner worker t = true) (hc : c ∉ states) : t.state ≠ c :=
  fun hs => hc (hs ▸ (finalizable_iff.1 h).1)

end GenericTaskQueue
