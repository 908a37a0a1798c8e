import GenericBackground.Lib.Traced
import GenericBackground.TaskQueue.Waiting

/-!
# The decision about a waiting parent

`_check_waiting_parent` with hooks that do anything to the database: to the task table and to
whatever else task types keep there. Its run records the calls of the hooks and the final writes, in
order. `waiting_parent_decision` says what it does, in terms of the children alone.

A hook runs in a savepoint. What `on_failure` raises is logged and swallowed, unless the error has
aborted the transaction; what `on_all_children_done` raises decides what becomes of the parent.
-/

namespace GenericTaskQueue

open Traced

/-! ## The database and the hooks of a task type -/

/-- What a transaction sees: the task table, and all else that hooks read and write. -/
structure Database (σ : Type) where
  tasks : Table
  others : σ

/-- How a call of `on_failure` ends: it returns, raises, or hits an error after which not even its
savepoint can be rolled back. -/
inductive HookEnd where
  | returned
  | raised (exc : Exc)
  | aborted

/-- What a transaction calls and writes. -/
inductive TxEvent where
  | onAllChildrenDone (id : TaskId) (ended : Except Exc (Option Json))
  | onFailure (id : TaskId) (cause : FailureCause) (ended : HookEnd)
  | done (id : TaskId) (result : Option Json)
  | failed (id : TaskId) (error : String)

abbrev TxRun (σ : Type) := Run TxEvent Exc (Database σ)

/-- What a call of `on_failure` does in its transaction. -/
inductive FailureHookRun (σ : Type) where
  | returned (D : Database σ)
  | raised (exc : Exc)
  | aborted

/-- The hooks of a task type; `KNOWN_TRANSIENT_ERRORS` raised by `on_all_children_done` abort the
transaction. -/
structure TypeHooks (σ : Type) where
  onAllChildrenDone : Task → Database σ → Except Exc (Database σ × Option Json)
  onFailure : FailureCause → Task → Database σ → FailureHookRun σ

/-- `on_failure` leaves the state of its own task alone. -/
def TypeHooks.KeepsState {σ : Type} (h : TypeHooks σ) : Prop :=
  ∀ cause t D D', h.onFailure cause t D = .returned D' →
    (D'.tasks.get t.id).map Task.state = (D.tasks.get t.id).map Task.state

def Task.failed (now : ℕ) (error : String) (t : Task) : Task :=
  { t with state := .failed, taskError := some error, dateCompleted := some now }

def Task.done (now : ℕ) (result : Option Json) (t : Task) : Task :=
  { t with state := .done, taskResult := result, dateCompleted := some now, progress := 100 }

def failedNames (T : Table) (id : TaskId) : List String :=
  ((T.children id).filter nonRetriable).map Task.name

def Env.registered (E : Env) (code : TypeCode) : Bool := (E.reg.lookup code).isSome

namespace Database

variable {σ : Type}

/-! ## Writes and hooks -/

/-- An action on one record, recorded as `es` if it goes through. -/
def modify (D : Database σ) (es : List TxEvent) (id : TaskId) (f : Task → Except TaskError Task) :
    TxRun σ :=
  match D.tasks.get id with
  | none => ⟨[], .error (.other "Record does not exist or has been deleted.")⟩
  | some t => match f t with
    | .ok t' => ⟨es, .ok { D with tasks := D.tasks.update id fun _ => t' }⟩
    | .error (.validationError msg) => ⟨[], .error (.other msg)⟩

def actionDone (D : Database σ) (E : Env) (result : Option Json) (id : TaskId) : TxRun σ :=
  D.modify [.done id result] id (GenericTaskQueue.actionDone E.now result)

def actionFail (D : Database σ) (E : Env) (error : String) (id : TaskId) : TxRun σ :=
  D.modify [.failed id error] id (GenericTaskQueue.actionFail E.now (some error) none)

/-- `_run_task_type_hook('on_failure', exc)`. -/
def onFailure (D : Database σ) (E : Env) (hooks : TypeCode → TypeHooks σ) (cause : FailureCause)
    (t : Task) : TxRun σ :=
  if E.registered t.typeCode then
    match (hooks t.typeCode).onFailure cause t D with
    | .returned D' => ⟨[.onFailure t.id cause .returned], .ok D'⟩
    | .raised exc => ⟨[.onFailure t.id cause (.raised exc)], .ok D⟩
    | .aborted => ⟨[.onFailure t.id cause .aborted], .error .transientError⟩
  else .ok D

/-- `on_failure`, then `action_fail`. -/
def failTask (D : Database σ) (E : Env) (hooks : TypeCode → TypeHooks σ) (cause : FailureCause)
    (error : String) (t : Task) : TxRun σ :=
  (D.onFailure E hooks cause t).andThen fun D' => D'.actionFail E error t.id

/-! ## The check -/

/-- The end of `_check_waiting_parent`, once `on_all_children_done` has returned `v`. -/
def afterHook (D : Database σ) (E : Env) (v : Option Json) (id : TaskId) : TxRun σ :=
  if (D.tasks.get id).map Task.state ≠ some .waiting then .ok D
  else if (D.tasks.children id).any (·.state ∈ activeStates) then .ok D
  else D.actionDone E v id

/-- `_check_waiting_parent`, once every child is done or cancelled. -/
def completeParent (D : Database σ) (E : Env) (hooks : TypeCode → TypeHooks σ) (p : Task) :
    TxRun σ :=
  if E.registered p.typeCode then
    match (hooks p.typeCode).onAllChildrenDone p D with
    | .ok (D', v) => (D'.afterHook E v p.id).after [.onAllChildrenDone p.id (.ok v)]
    | .error .transientError =>
      ⟨[.onAllChildrenDone p.id (.error .transientError)], .error .transientError⟩
    | .error (.retryTask d) => ⟨[.onAllChildrenDone p.id (.error (.retryTask d))], .ok D⟩
    | .error (.other text) =>
      (D.failTask E hooks (.raised (.other text)) ("on_all_children_done failed: " ++ text)
        p).after [.onAllChildrenDone p.id (.error (.other text))]
  else D.afterHook E none p.id

/-- `_check_waiting_parent`, with the row lock acquired. -/
def checkWaitingParent (D : Database σ) (E : Env) (hooks : TypeCode → TypeHooks σ) (id : TaskId) :
    TxRun σ :=
  match D.tasks.get id with
  | none => .ok D
  | some p =>
    if p.state ≠ .waiting then .ok D
    else if D.tasks.children id = [] then D.actionDone E none id
    else if (D.tasks.children id).any (·.state ∈ activeStates) then .ok D
    else if (D.tasks.children id).any nonRetriable then
      D.failTask E hooks (.childTasksFailedError (failedNames D.tasks id))
        ("Child tasks failed: " ++ ", ".intercalate (failedNames D.tasks id)) p
    else if (D.tasks.children id).any (·.state = .failed) then .ok D
    else D.completeParent E hooks p

/-! ## Writes and hooks by what they leave -/

variable {D D' : Database σ} {E : Env} {hooks : TypeCode → TypeHooks σ} {id : TaskId}
  {p t t' : Task}

theorem modify_eq {es : List TxEvent} {f : Task → Except TaskError Task}
    (ht : D.tasks.get id = some t) (hf : f t = .ok t') :
    D.modify es id f = ⟨es, .ok { D with tasks := D.tasks.update id fun _ => t' }⟩ := by
  unfold modify; simp only [ht, hf]

theorem modify_ok {es : List TxEvent} {f : Task → Except TaskError Task}
    (h : (D.modify es id f).result = .ok D') : ∃ t t', D.tasks.get id = some t ∧ f t = .ok t' ∧
      D' = { D with tasks := D.tasks.update id fun _ => t' } ∧ (D.modify es id f).events = es := by
  unfold modify at h ⊢
  rcases ht : D.tasks.get id with _ | t
  · simp only [ht] at h; cases h
  · rcases hf : f t with ⟨msg⟩ | t'
    · simp only [ht, hf] at h; cases h
    · simp only [ht, hf] at h ⊢
      exact ⟨t, t', rfl, hf, (Except.ok.inj h).symm, trivial⟩

theorem actionFail_eq {error : String} (ht : D.tasks.get id = some t)
    (hs : .failed ∈ allowedTransitions t.state) : D.actionFail E error id =
      ⟨[.failed id error],
        .ok { D with tasks := D.tasks.update id fun _ => t.failed E.now error }⟩ :=
  modify_eq ht (checked_of_mem hs)

theorem actionDone_eq {v : Option Json} (ht : D.tasks.get id = some t)
    (hs : .done ∈ allowedTransitions t.state) : D.actionDone E v id =
      ⟨[.done id v], .ok { D with tasks := D.tasks.update id fun _ => t.done E.now v }⟩ :=
  modify_eq ht (checked_of_mem hs)

end Database

/-! ## What the check is to do -/

/-- A failed child that an automatic retry will pick up. -/
def Retriable (c : Task) : Prop := c.retryPolicy = .retryAny ∧ c.retryCount < c.maxRetries

theorem nonRetriable_iff {c : Task} :
    nonRetriable c = true ↔ c.state = .failed ∧ ¬ Retriable c := by
  unfold nonRetriable Retriable
  simp only [Bool.and_eq_true, Bool.or_eq_true, decide_eq_true_eq, ne_eq, not_and, not_lt]
  exact and_congr_right fun _ => Decidable.imp_iff_not_or.symm

variable {σ : Type}

/-- The task fails: `on_failure` is called with `cause`, and then it is failed with `error`. The
changes of `on_failure` are kept if it returns, and everything is rolled back if it aborts the
transaction. -/
inductive FailsWith (now : ℕ) (h : TypeHooks σ) (cause : FailureCause) (error : String) (t : Task)
    (D : Database σ) : TxRun σ → Prop
  | returned {D' : Database σ} {t' : Task} (hr : h.onFailure cause t D = .returned D')
      (ht : D'.tasks.get t.id = some t') (hs : t'.state = t.state) :
      FailsWith now h cause error t D ⟨[.onFailure t.id cause .returned, .failed t.id error],
        .ok { D' with tasks := D'.tasks.update t.id fun _ => t'.failed now error }⟩
  | raised {exc : Exc} (hr : h.onFailure cause t D = .raised exc) :
      FailsWith now h cause error t D ⟨[.onFailure t.id cause (.raised exc), .failed t.id error],
        .ok { D with tasks := D.tasks.update t.id fun _ => t.failed now error }⟩
  | aborted (hr : h.onFailure cause t D = .aborted) :
      FailsWith now h cause error t D ⟨[.onFailure t.id cause .aborted], .error .transientError⟩

/-- What becomes of a parent whose children are all done or cancelled, by how its
`on_all_children_done` ends. -/
inductive CompletesWith (now : ℕ) (h : TypeHooks σ) (p : Task) (D : Database σ) : TxRun σ → Prop
  | moved {D' : Database σ} {v : Option Json} (hr : h.onAllChildrenDone p D = .ok (D', v))
      (hm : (D'.tasks.get p.id).map Task.state ≠ some .waiting) :
      CompletesWith now h p D ⟨[.onAllChildrenDone p.id (.ok v)], .ok D'⟩
  | wave {D' : Database σ} {v : Option Json} (hr : h.onAllChildrenDone p D = .ok (D', v))
      (ha : ∃ c ∈ D'.tasks.children p.id, c.state ∈ activeStates) :
      CompletesWith now h p D ⟨[.onAllChildrenDone p.id (.ok v)], .ok D'⟩
  | completed {D' : Database σ} {v : Option Json} {p' : Task}
      (hr : h.onAllChildrenDone p D = .ok (D', v)) (hp : D'.tasks.get p.id = some p')
      (hw : p'.state = .waiting) (ha : ∀ c ∈ D'.tasks.children p.id, c.state ∉ activeStates) :
      CompletesWith now h p D ⟨[.onAllChildrenDone p.id (.ok v), .done p.id v],
        .ok { D' with tasks := D'.tasks.update p.id fun _ => p'.done now v }⟩
  | retryTask {after : Option ℕ} (hr : h.onAllChildrenDone p D = .error (.retryTask after)) :
      CompletesWith now h p D ⟨[.onAllChildrenDone p.id (.error (.retryTask after))], .ok D⟩
  | transientError (hr : h.onAllChildrenDone p D = .error .transientError) :
      CompletesWith now h p D
        ⟨[.onAllChildrenDone p.id (.error .transientError)], .error .transientError⟩
  | failed {text : String} {r : TxRun σ} (hr : h.onAllChildrenDone p D = .error (.other text))
      (hf : FailsWith now h (.raised (.other text)) ("on_all_children_done failed: " ++ text) p
        D r) :
      CompletesWith now h p D (r.after [.onAllChildrenDone p.id (.error (.other text))])

/-- **The decision.** Children, in turn: one is active; one has failed for good; one has failed and
is to be retried; all are done or cancelled. -/
structure ParentDecision (now : ℕ) (h : TypeHooks σ) (p : Task) (D : Database σ) (r : TxRun σ) :
    Prop where
  active : (∃ c ∈ D.tasks.children p.id, c.state ∈ activeStates) → r = .ok D
  failed : (∀ c ∈ D.tasks.children p.id, c.state ∉ activeStates) →
    (∃ c ∈ D.tasks.children p.id, c.state = .failed ∧ ¬ Retriable c) →
    FailsWith now h (.childTasksFailedError (failedNames D.tasks p.id))
      ("Child tasks failed: " ++ ", ".intercalate (failedNames D.tasks p.id)) p D r
  retriable : (∀ c ∈ D.tasks.children p.id, c.state ∉ activeStates) →
    (∀ c ∈ D.tasks.children p.id, c.state = .failed → Retriable c) →
    (∃ c ∈ D.tasks.children p.id, c.state = .failed) → r = .ok D
  complete : (∀ c ∈ D.tasks.children p.id, c.state = .done ∨ c.state = .cancelled) →
    CompletesWith now h p D r

/-! ## What it does -/

namespace Database

variable {D : Database σ} {E : Env} {hooks : TypeCode → TypeHooks σ} {p : Task}

theorem failTask_fails {cause : FailureCause} {error : String}
    (hp : D.tasks.get p.id = some p) (hs : .failed ∈ allowedTransitions p.state)
    (hreg : E.registered p.typeCode = true) (hk : (hooks p.typeCode).KeepsState) :
    FailsWith E.now (hooks p.typeCode) cause error p D (D.failTask E hooks cause error p) := by
  unfold failTask onFailure
  rw [if_pos hreg]
  rcases hr : (hooks p.typeCode).onFailure cause p D with D' | exc | _
  · have hst := hk _ _ _ _ hr
    rw [hp, Option.map_some] at hst
    obtain ⟨p', hp', hst⟩ := Option.map_eq_some_iff.1 hst
    rw [Run.andThen_of_ok rfl, actionFail_eq hp' (hst ▸ hs)]
    exact .returned hr hp' hst
  · rw [Run.andThen_of_ok rfl, actionFail_eq hp hs]
    exact .raised hr
  · exact .aborted hr

theorem afterHook_completes {D' : Database σ} {v : Option Json}
    (hr : (hooks p.typeCode).onAllChildrenDone p D = .ok (D', v)) :
    CompletesWith E.now (hooks p.typeCode) p D
      ((D'.afterHook E v p.id).after [.onAllChildrenDone p.id (.ok v)]) := by
  unfold afterHook
  split_ifs with hm ha
  · exact .moved hr hm
  · refine .wave hr ?_
    simpa using ha
  · rw [not_not] at hm
    obtain ⟨p', hp', hw⟩ := Option.map_eq_some_iff.1 hm
    rw [actionDone_eq hp' (by rw [hw]; decide)]
    refine .completed hr hp' hw ?_
    simpa using ha

theorem completeParent_completes (hp : D.tasks.get p.id = some p) (hw : p.state = .waiting)
    (hreg : E.registered p.typeCode = true) (hk : (hooks p.typeCode).KeepsState) :
    CompletesWith E.now (hooks p.typeCode) p D (D.completeParent E hooks p) := by
  unfold completeParent
  rw [if_pos hreg]
  rcases hr : (hooks p.typeCode).onAllChildrenDone p D with exc | ⟨D', v⟩
  · cases exc with
    | transientError => exact .transientError hr
    | retryTask after => exact .retryTask hr
    | other text => exact .failed hr (failTask_fails hp (by rw [hw]; decide) hreg hk)
  · exact afterHook_completes hr

/-- **Waiting-parent decision.** The check of a waiting parent with children decides by the states
of the children, and by how its hooks end. -/
theorem checkWaitingParent_decision (hp : D.tasks.get p.id = some p) (hw : p.state = .waiting)
    (hreg : E.registered p.typeCode = true) (hne : D.tasks.children p.id ≠ [])
    (hk : (hooks p.typeCode).KeepsState) :
    ParentDecision E.now (hooks p.typeCode) p D (D.checkWaitingParent E hooks p.id) := by
  have hactive : (D.tasks.children p.id).any (·.state ∈ activeStates) = true ↔
      ∃ c ∈ D.tasks.children p.id, c.state ∈ activeStates := by simp
  have hfailed : (D.tasks.children p.id).any (·.state = .failed) = true ↔
      ∃ c ∈ D.tasks.children p.id, c.state = .failed := by simp
  have hnon : (D.tasks.children p.id).any nonRetriable = true ↔
      ∃ c ∈ D.tasks.children p.id, c.state = .failed ∧ ¬ Retriable c := by
    simp [List.any_eq_true, nonRetriable_iff]
  unfold checkWaitingParent
  simp only [hp, hw, ne_eq, not_true_eq_false, if_false, if_neg hne]
  refine ⟨fun h => if_pos (hactive.2 h), fun hq hf => ?_, fun hq hret hf => ?_, fun hall => ?_⟩
  · rw [if_neg fun h => (hactive.1 h).elim fun c h => hq c h.1 h.2, if_pos (hnon.2 hf)]
    exact failTask_fails hp (by rw [hw]; decide) hreg hk
  · rw [if_neg fun h => (hactive.1 h).elim fun c h => hq c h.1 h.2,
      if_neg fun h => (hnon.1 h).elim fun c h => h.2.2 (hret c h.1 h.2.1), if_pos (hfailed.2 hf)]
  · have hstate : ∀ c ∈ D.tasks.children p.id, c.state ∉ activeStates ∧ c.state ≠ .failed := by
      intro c hc
      rcases hall c hc with h | h <;> rw [h] <;> decide
    rw [if_neg fun h => (hactive.1 h).elim fun c h => (hstate c h.1).1 h.2,
      if_neg fun h => (hnon.1 h).elim fun c h => (hstate c h.1).2 h.2.1,
      if_neg fun h => (hfailed.1 h).elim fun c h => (hstate c h.1).2 h.2]
    exact completeParent_completes hp hw hreg hk

end Database

def reportTask : Task :=
  { id := 1, name := "report", typeCode := "report", state := .waiting, dateCreated := 10
    createUid := 2 }

def reportDb : Database (List String) where
  tasks := {
    rows := [reportTask,
      { id := 2, name := "part 1", typeCode := "part", state := .done, parentId := some 1
        dateCreated := 11, createUid := 2 },
      { id := 3, name := "part 2", typeCode := "part", state := .cancelled, parentId := some 1
        dateCreated := 11, createUid := 2 }]
    nodup := by decide }
  others := []

def reportEnv : Env := ⟨[("report", {}), ("part", {})], ["report", "part"], 100, []⟩

/-- The parent returns what it has collected; both hooks write to a log. -/
def reportHooks : TypeHooks (List String) where
  onAllChildrenDone _ D := .ok ({ D with others := "collected" :: D.others }, some (.int 2))
  onFailure _ _ D := .returned { D with others := "failed" :: D.others }

theorem reportHooks_keepsState : reportHooks.KeepsState := by
  rintro cause t D D' h
  obtain rfl := FailureHookRun.returned.inj h
  rfl

theorem report_decision : ParentDecision reportEnv.now reportHooks reportTask reportDb
    (reportDb.checkWaitingParent reportEnv (fun _ => reportHooks) reportTask.id) := by
  have hne : reportDb.tasks.children reportTask.id ≠ [] := by decide
  exact @Database.checkWaitingParent_decision _ reportDb reportEnv (fun _ => reportHooks) reportTask
    rfl rfl rfl hne reportHooks_keepsState

/-! ## Hooks given by what one call does -/

section Given

variable {γ : Type} {E : Env} {hook : Hook γ} {hooks : Hooks} {T : Table} {id : TaskId} {p : Task}

/-- The hooks of a cycle of the poll, as those of a task type that keeps nothing else. -/
def givenHooks (E : Env) (hook : Hook γ) (hooks : Hooks) : TypeHooks Unit where
  onAllChildrenDone p D := (hook p D.tasks).map fun r => (⟨r.1, ()⟩, r.2.1)
  onFailure _ p D := match runTaskTypeHook E (hooks.onFailure p.id) p D.tasks with
    | (T, .ok _) => .returned ⟨T, ()⟩
    | (_, .error exc) => .raised exc

theorem ParentMove.apply_get {sees : Task → Bool} {now : ℕ} {T' : Table} {m : ParentMove}
    (h : m.apply sees now p.id T = .ok T') (hp : T.get p.id = some p) :
    ∃ p', T'.get p.id = some p' := by
  cases m with
  | done v =>
    obtain ⟨t', -, rfl⟩ := Table.modify_ok hp h
    exact ⟨_, Table.get_update_self hp⟩
  | fail e =>
    obtain ⟨t', -, rfl⟩ := Table.modify_ok hp h
    exact ⟨_, Table.get_update_self hp⟩
  | cancel =>
    obtain ⟨-, rfl⟩ := Table.actionCancel_ok hp h
    exact ⟨_, by rw [Table.get_updateAll, hp, Option.map_some]⟩

theorem runTaskTypeHook_get {h : HookRun} (hp : T.get p.id = some p) :
    ∃ p', (runTaskTypeHook E h p T).1.get p.id = some p' := by
  unfold runTaskTypeHook
  split_ifs
  · exact ⟨p, hp⟩
  rcases he : h.effects E p T with ⟨msg⟩ | T'
  · exact ⟨p, hp⟩
  rcases h.outcome with exc | v
  · exact ⟨p, hp⟩
  unfold HookRun.effects at he
  obtain ⟨T₁, h1, h2⟩ := bind_ok he
  have hp₁ : T₁.get p.id = some p :=
    Table.mem_iff_get.1 (createChildren_old h1 (Table.mem_iff_get.2 hp))
  rcases hm : h.move with _ | m
  · rw [hm] at h2
    obtain rfl := Except.ok.inj h2
    exact ⟨p, hp₁⟩
  · rw [hm] at h2
    exact ParentMove.apply_get h2 hp₁

theorem runTaskTypeHook_error {h : HookRun} {exc : Exc}
    (hr : (runTaskTypeHook E h p T).2 = .error exc) : (runTaskTypeHook E h p T).1 = T := by
  unfold runTaskTypeHook at hr ⊢
  split_ifs at hr ⊢
  rcases he : h.effects E p T with ⟨msg⟩ | T'
  · rfl
  · rcases ho : h.outcome with exc | v
    · rfl
    · simp only [he, ho] at hr
      cases hr

theorem modify_tasks {σ : Type} {D : Database σ} {es : List TxEvent}
    {f : Task → Except TaskError Task} (hp : D.tasks.get id = some p) :
    (D.modify es id f).result.map Database.tasks = match D.tasks.modify id f with
      | .ok T => .ok T
      | .error (.validationError e) => .error (.other e) := by
  unfold Database.modify Table.modify
  simp only [hp]
  rcases f p with ⟨msg⟩ | t' <;> rfl

theorem failTask_tasks {cause : FailureCause} {msg : String} (hp : T.get p.id = some p)
    (hreg : E.registered p.typeCode = true) :
    ((Database.mk T ()).failTask E (fun _ => givenHooks E hook hooks) cause msg p).result.map
      Database.tasks = (failParent E hooks cause msg p T).map Prod.fst := by
  have hfail : ∀ T' : Table, (∃ p', T'.get p.id = some p') →
      ((Database.mk T' ()).actionFail E msg p.id).result.map Database.tasks =
        Except.map Prod.fst (match T'.modify p.id (actionFail E.now (some msg) none) with
          | .ok T'' => .ok (T'', [.onFailure p.id cause])
          | .error (.validationError e) => .error (.other e) :
            Except Exc (Table × List HookCall)) := by
    rintro T' ⟨p', hp'⟩
    refine (modify_tasks hp').trans ?_
    show (match T'.modify p.id _ with | .ok T => _ | .error (.validationError e) => _) = _
    rcases T'.modify p.id (actionFail E.now (some msg) none) with ⟨e⟩ | T'' <;> rfl
  have hget : ∃ p', (runTaskTypeHook E (hooks.onFailure p.id) p T).1.get p.id = some p' :=
    runTaskTypeHook_get hp
  have hraised : ∀ exc, (runTaskTypeHook E (hooks.onFailure p.id) p T).2 = .error exc →
      (runTaskTypeHook E (hooks.onFailure p.id) p T).1 = T := fun _ => runTaskTypeHook_error
  unfold Database.failTask Database.onFailure failParent
  rw [if_pos hreg]
  simp only [givenHooks]
  generalize runTaskTypeHook E (hooks.onFailure p.id) p T = run at hget hraised ⊢
  rcases run with ⟨T', exc | v⟩
  · obtain rfl := hraised exc rfl
    exact hfail _ hget
  · exact hfail _ hget

/-- **Refinement.** For such hooks the check changes the task table as that of the poll does. -/
theorem checkWaitingParent_tasks (hp : T.get id = some p) (hreg : E.registered p.typeCode = true) :
    ((Database.mk T ()).checkWaitingParent E (fun _ => givenHooks E hook hooks) id).result.map
      Database.tasks = (checkWaitingParentWith E hook hooks id T).map Prod.fst := by
  obtain ⟨-, rfl⟩ := Table.get_eq_some_iff.1 hp
  have hdone : ∀ (T' : Table) (v : Option Json), (∃ p', T'.get p.id = some p') →
      ∀ (calls : List HookCall) (g : Option γ),
      ((Database.mk T' ()).actionDone E v p.id).result.map Database.tasks =
        Except.map Prod.fst (match T'.modify p.id (actionDone E.now v) with
          | .ok T'' => .ok (T'', calls, g)
          | .error (.validationError e) => .error (.other e) :
            Except Exc (Table × List HookCall × Option γ)) := by
    rintro T' v ⟨p', hp'⟩ calls g
    refine (modify_tasks hp').trans ?_
    show (match T'.modify p.id _ with | .ok T => _ | .error (.validationError e) => _) = _
    rcases T'.modify p.id (actionDone E.now v) with ⟨e⟩ | T'' <;> rfl
  unfold Database.checkWaitingParent checkWaitingParentWith
  simp only [hp]
  split_ifs
  · rfl
  · exact hdone T none ⟨p, hp⟩ _ _
  · rfl
  · rw [failTask_tasks hp hreg]
    unfold failedNames
    rcases failParent E hooks _ _ p T with e | r <;> rfl
  · rfl
  · unfold Database.completeParent completeParentWith
    rw [if_pos hreg]
    simp only [givenHooks]
    rcases hook p T with exc | ⟨T', v, g⟩
    · cases exc with
      | transientError => rfl
      | retryTask after => rfl
      | other text =>
        refine Eq.trans (failTask_tasks hp hreg) ?_
        simp only
        rcases failParent E hooks _ _ p T with e | r <;> rfl
    · show ((Database.mk T' ()).afterHook E v p.id).result.map Database.tasks = _
      unfold Database.afterHook
      simp only
      split_ifs with hw
      · rfl
      · rfl
      · rw [not_not] at hw
        obtain ⟨p', hp', -⟩ := Option.map_eq_some_iff.1 hw
        exact hdone T' v ⟨p', hp'⟩ _ _

end Given

end GenericTaskQueue
