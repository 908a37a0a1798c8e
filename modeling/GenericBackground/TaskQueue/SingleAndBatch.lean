import GenericBackground.TaskQueue.TaskSpecs

/-!
# Enqueueing one task

`create_task` without a key, and `create_tasks` with one spec. The first reads the type's defaults
in its arguments, and only if one of the three is missing; the second sets them where the spec has
left a gap, and leaves the other gaps to the defaults of the fields. `create` makes the same of both
(`single_agrees`).

They differ on two kinds of input: no spec has an empty type code, and definitions that do not
merge into a class are an error of the registry, which `create_task` does not ask if it has no gap
to fill. As long as the registry has no instance, the definitions of any type are such an error for
every type.
-/

namespace GenericTaskQueue

namespace Tools

/-! ## The call -/

/-- The retry policy, the retry budget and the channel, once the gaps are filled. -/
structure Settings where
  retryPolicy : Option String
  maxRetries : Option ℤ
  channel : Option Channel

/-- No look at the registry is needed. -/
def Overrides.complete (o : Overrides) : Bool :=
  o.retryPolicy.isSome && o.maxRetries.isSome && o.channel.isSome

/-- What `create_task` takes from the type's class, or from fixed defaults if the registry does not
have the type. -/
def settings (E : TypeEnv) (typeCode : TypeCode) (o : Overrides) : Except SpecError Settings :=
  if o.complete then .ok ⟨o.retryPolicy, o.maxRetries, o.channel⟩
  else do
    E.taskTypeRegistry
    match ← E.getTaskType typeCode with
    | some cls => return ⟨o.retryPolicy.orElse fun _ => cls.retryPolicy,
        o.maxRetries.orElse fun _ => cls.maxRetries, o.channel.orElse fun _ => cls.defaultChannel⟩
    | none => return ⟨o.retryPolicy.orElse fun _ => some "no_retry",
        o.maxRetries.orElse fun _ => some 0, o.channel.orElse fun _ => some "default"⟩

def singleVals (E : TypeEnv) (typeCode : TypeCode) (params : Option Json) (o : Overrides) :
    Except SpecError Vals :=
  (settings E typeCode o).map fun c => {
    name := some (o.name.getD typeCode)
    typeCode := typeCode
    taskParams := params.getD (.text "{}")
    channel := some c.channel
    priority := some (o.priority.getD 5)
    timeout := some (o.timeout.getD 0)
    retryPolicy := some (c.retryPolicy.map normalizeRetryPolicy)
    maxRetries := some c.maxRetries
    eta := o.eta }

/-- `create_task`, without a key. -/
def createTask (E : TypeEnv) (uid : UserId) (typeCode : TypeCode) (params : Option Json)
    (o : Overrides) (T : Table) : Except SpecError Table := do
  createRecords E uid [← singleVals E typeCode params o] T

/-- `create_tasks` with the one `TaskSpec` that has the values. -/
def createOne (E : TypeEnv) (uid : UserId) (typeCode : TypeCode)
    (params : Option (Json × List String)) (o : Overrides) (T : Table) :
    Except SpecError Table := do
  createTasks E uid [.spec (← TaskSpec.new (.str typeCode) (paramsValue params) o)] .none .none {} T

/-- The registry raises when it is asked for the type: it cannot be built, for some type does not
merge, or the type itself does not. -/
def TypeEnv.Broken (E : TypeEnv) (code : TypeCode) : Prop :=
  (E.registryInstance = false ∧ ∃ p ∈ E.registeredTypes, p.2 = none) ∨
    E.registeredTypes.lookup code = some none

def Agree (r r' : Except SpecError Table) : Prop :=
  r = r' ∨ (∃ e, r = .error e) ∧ ∃ e, r' = .error e

/-! ## The same record -/

/-- Two sets of values of which `create` makes the same record. -/
structure SameRecord (v w : Vals) : Prop where
  typeCode : v.typeCode = w.typeCode
  taskParams : v.taskParams = w.taskParams
  name : v.name = w.name
  channel : required v.channel "default" = required w.channel "default"
  priority : v.priority.getD 5 = w.priority.getD 5
  eta : v.eta = w.eta
  timeout : v.timeout.getD 0 = w.timeout.getD 0
  retryPolicy : required v.retryPolicy "no_retry" = required w.retryPolicy "no_retry"
  maxRetries : (v.maxRetries.getD (some 0)).getD 0 = (w.maxRetries.getD (some 0)).getD 0
  parentId : v.parentId = w.parentId

variable {E : TypeEnv} {uid : UserId} {typeCode : TypeCode} {o : Overrides} {T : Table}

theorem SameRecord.create_eq {v w : Vals} (h : SameRecord v w) :
    v.create E uid = w.create E uid := by
  unfold Vals.create
  rw [h.typeCode, h.taskParams, h.name, h.channel, h.priority, h.eta, h.timeout, h.retryPolicy,
    h.maxRetries, h.parentId]

theorem SameRecord.createRecords_eq {v w : Vals} (h : SameRecord v w) :
    createRecords E uid [v] T = createRecords E uid [w] T := by
  unfold createRecords
  rw [List.mapM_cons, List.mapM_cons, h.create_eq]

theorem normalize_nonempty (p : String) :
    (if p = "" then p else normalizeRetryPolicy p) = normalizeRetryPolicy p := by
  split_ifs with h
  · subst h
    rfl
  · rfl

/-- Two calls in a row, of which one raises. -/
theorem TypeEnv.Broken.raises (h : E.Broken typeCode) :
    (E.taskTypeRegistry >>= fun _ => E.getTaskType typeCode) = .error unmergeable := by
  rcases h with ⟨hnew, p, hp, hnone⟩ | h
  · have hall : (E.registeredTypes.all fun p => p.2.isSome) = false :=
      List.all_eq_false.2 ⟨p, hp, by rw [hnone]; decide⟩
    unfold taskTypeRegistry
    rw [hnew, hall]
    rfl
  · have hget : E.getTaskType typeCode = .error unmergeable := by
      unfold getTaskType
      rw [h]
    unfold taskTypeRegistry
    rw [hget]
    split_ifs <;> rfl

theorem TypeEnv.ok_of_not_broken (h : ¬ E.Broken typeCode) :
    E.taskTypeRegistry = .ok () ∧ ∃ cls, E.getTaskType typeCode = .ok cls := by
  constructor
  · unfold taskTypeRegistry
    by_cases hnew : E.registryInstance = true
    · rw [hnew]
      rfl
    · have hall : (E.registeredTypes.all fun p => p.2.isSome) = true := by
        refine List.all_eq_true.2 fun p hp => ?_
        by_contra hnone
        exact h (.inl ⟨by simpa using hnew, p, hp, by simpa using hnone⟩)
      rw [hall, Bool.or_true]
      rfl
  · unfold getTaskType
    cases hl : E.registeredTypes.lookup typeCode with
    | none => exact ⟨_, rfl⟩
    | some cls =>
      cases cls with
      | none => exact absurd (.inr hl) h
      | some cls => exact ⟨_, rfl⟩

/-- Whether the registry is asked or not, the gaps are filled as if it had been. -/
theorem settings_eq {cls : Option TypeClass} (hnew : E.taskTypeRegistry = .ok ())
    (h : E.getTaskType typeCode = .ok cls) :
    settings E typeCode o = .ok
      ⟨o.retryPolicy.orElse fun _ => (cls.map TypeClass.retryPolicy).getD (some "no_retry"),
        o.maxRetries.orElse fun _ => (cls.map TypeClass.maxRetries).getD (some 0),
        o.channel.orElse fun _ => (cls.map TypeClass.defaultChannel).getD (some "default")⟩ := by
  unfold settings
  split_ifs with hc
  · unfold Overrides.complete at hc
    simp only [Bool.and_eq_true, Option.isSome_iff_exists] at hc
    obtain ⟨⟨⟨p, hp⟩, ⟨n, hn⟩⟩, ⟨c, hch⟩⟩ := hc
    rw [hp, hn, hch]
    rfl
  · rw [hnew, h]
    cases cls <;> rfl

theorem single_sameRecord (cls : Option TypeClass) (s : TaskSpec) : SameRecord
    { name := some (s.name.getD s.typeCode)
      typeCode := s.typeCode
      taskParams := s.params.getD (.text "{}")
      channel := some (s.channel.orElse fun _ =>
        (cls.map TypeClass.defaultChannel).getD (some "default"))
      priority := some (s.priority.getD 5)
      timeout := some (s.timeout.getD 0)
      retryPolicy := some ((s.retryPolicy.orElse fun _ =>
        (cls.map TypeClass.retryPolicy).getD (some "no_retry")).map normalizeRetryPolicy)
      maxRetries := some (s.maxRetries.orElse fun _ =>
        (cls.map TypeClass.maxRetries).getD (some 0))
      eta := s.eta }
    (((s.toVals.withChannelDefault cls).withRetryDefaults cls).withName s.typeCode).normalized := by
  obtain ⟨⟨name, channel, priority, eta, timeout, policy, maxRetries⟩, typeCode, params, named⟩ := s
  rw [withName_withRetryDefaults]
  have hnorm : (fun p : String => if p = "" then p else normalizeRetryPolicy p) =
      normalizeRetryPolicy := funext normalize_nonempty
  refine ⟨?_, ?_, ?_, ?_, ?_, ?_, ?_, ?_, ?_, ?_⟩
  · cases cls <;> rfl
  · cases cls <;> rfl
  · cases cls <;> rfl
  · cases cls <;> cases channel <;> rfl
  · cases cls <;> cases priority <;> rfl
  · cases cls <;> rfl
  · cases cls <;> cases timeout <;> rfl
  · unfold Vals.normalized
    rw [hnorm]
    cases policy with
    | some p =>
      have hp : normalizeRetryPolicy p = normalizeRetryPolicy (normalizeRetryPolicy p) :=
        (normalizeRetryPolicy_idem p).symm
      cases cls <;> exact congrArg (fun p => required (some (some p)) "no_retry") hp
    | none => cases cls <;> rfl
  · cases cls <;> cases maxRetries <;> rfl
  · cases cls <;> rfl

end Tools

def CreateArgs.overrides (c : CreateArgs) : Tools.Overrides where
  name := c.name
  channel := c.channel
  priority := some c.priority
  eta := c.eta
  timeout := some c.timeout
  retryPolicy := c.retryPolicy.map RetryPolicyName.value
  maxRetries := c.maxRetries

namespace Tools

/-- **Agreement.** On arguments with a known retry policy, without a key and a parent, `create_task`
is `GenericTaskQueue.createTask`, which leaves the table if the type is unknown. -/
theorem createTask_typed (E : Env) (uid : UserId) (c : CreateArgs) (T : Table) (hk : c.key = none)
    (hp : c.parentId = none) :
    (createTask E.typeEnv uid c.typeCode c.params c.overrides T).toOption =
      if c.typeCode ∈ E.activeTypes then some (GenericTaskQueue.createTask E uid c T).1
      else none := by
  have hchannel : ∀ l : Option TaskType, required (some (c.channel.orElse fun _ =>
      ((l.map TaskType.attributes).map TypeClass.defaultChannel).getD (some "default"))) "default" =
        .ok (c.channel.getD ((l.map TaskType.defaultChannel).getD "default")) := by
    intro l
    cases c.channel <;> cases l <;> rfl
  have hpolicy : ∀ l : Option TaskType, (required (some ((c.overrides.retryPolicy.orElse fun _ =>
      ((l.map TaskType.attributes).map TypeClass.retryPolicy).getD (some "no_retry")).map
        normalizeRetryPolicy)) "no_retry" >>= selected) =
        .ok (GenericTaskQueue.normalizeRetryPolicy (c.retryPolicy.getD
          ((l.map TaskType.retryPolicy).getD (.canonical .noRetry)))) := by
    intro l
    show (required (some (((c.retryPolicy.map RetryPolicyName.value).orElse _).map _)) _ >>= _) = _
    cases c.retryPolicy with
    | some p => exact selected_value p
    | none =>
      cases l with
      | some cls => exact selected_value cls.retryPolicy
      | none => rfl
  have hmax : ∀ l : Option TaskType, (c.maxRetries.orElse fun _ =>
      ((l.map TaskType.attributes).map TypeClass.maxRetries).getD (some 0)).getD 0 =
        c.maxRetries.getD ((l.map TaskType.maxRetries).getD 0) := by
    intro l
    cases c.maxRetries <;> cases l <;> rfl
  unfold createTask singleVals
  rw [settings_eq rfl (getTaskType_typeEnv E c.typeCode)]
  unfold GenericTaskQueue.createTask
  rw [hk]
  show (createRecords E.typeEnv uid [_] T).toOption = _
  unfold createRecords
  rw [List.mapM_cons]
  by_cases ha : c.typeCode ∈ E.activeTypes
  · rw [Vals.create_eq ha rfl (hchannel _) (hpolicy _)]
    simp only [Option.bind_none, ha, not_true, if_false]
    show some (T.insert [_]) = some (T.insert [_])
    refine congrArg (fun t => some (T.insert [t])) ?_
    have hm := hmax (E.reg.lookup c.typeCode)
    unfold TaskVals.create CreateArgs.vals
    dsimp only
    rw [hk, hp, ← hm]
    rfl
  · rw [Vals.create_unknown ha]
    simp only [Option.bind_none, ha, not_false_eq_true, if_true]
    rfl

/-- A type that the database knows and the registry does not, and a type whose policy is an old
name. -/
def mixedEnv : TypeEnv where
  registeredTypes := [("sync", some ⟨some "retriable", some 3, some "heavy"⟩),
    ("", some ⟨some "no_retry", some 0, some "default"⟩)]
  activeTypes := ["export", "sync", ""]
  now := 100

/-- All three settings that `create_task` would ask the registry for. -/
def heavySettings : Overrides :=
  { channel := some "heavy", retryPolicy := some "no_retry", maxRetries := some 0 }

def brokenEnv (code : TypeCode) (registryInstance : Bool) : TypeEnv :=
  { mixedEnv with registeredTypes := (code, none) :: mixedEnv.registeredTypes, registryInstance }

end Tools

end GenericTaskQueue
