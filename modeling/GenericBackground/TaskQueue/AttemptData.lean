import GenericBackground.TaskQueue.Vacuum

/-!
# The data of an attempt

`date_completed`, `task_error` and `task_error_data` belong to one attempt of a task. `action_retry`
and `_action_auto_retry` clear `task_error`, and leave the other two as they are: a failed task that
is put back to `pending` has ended by its data. In a run in which this does not happen the data
agree with the state, and only there (`attempt_data_iff`).

The steps are the statements of the queue, each on one row, and `action_fail` as task code may call
it, with error data. What the transactions of the queue make of the table is a run of such steps
(`Sys.attempts`).
-/

namespace GenericTaskQueue

open RowStore Lts

/-! ## The steps -/

abbrev TaskRows := TaskId → Option Task

/-- A statement of a transaction of the queue, or a call of `action_fail` without a runner. -/
inductive AttemptAct where
  | statement (a : RowAct)
  | actionFail (now : ℕ) (error : Option String) (errorData : Option Json)
  deriving DecidableEq, Repr

def AttemptAct.onRow (reg : Registry) : AttemptAct → Option Task → Except TaskError (Option Task)
  | .statement a, o => if a.selects o then a.run reg o else .ok o
  | .actionFail now error errorData, some t =>
    (GenericTaskQueue.actionFail now error errorData t).map some
  | .actionFail _ _ _, none =>
    .error (.validationError "Record does not exist or has been deleted.")

def attemptStep (reg : Registry) (rows : TaskRows) (e : TaskId × AttemptAct) : Option TaskRows :=
  match e.2.onRow reg (rows e.1) with
  | .ok o => some (Function.update rows e.1 o)
  | .error _ => none

/-- The step puts a failed task back to `pending`: `action_retry`, or the poll of failed tasks. -/
def StartsOver (rows : TaskRows) (e : TaskId × AttemptAct) : Prop :=
  ∃ t ∈ rows e.1, t.state = .failed ∧ match e.2 with
    | .statement a => a.putsBack = true ∧ a.selects (some t) = true
    | .actionFail _ _ _ => False

instance (rows : TaskRows) (e : TaskId × AttemptAct) : Decidable (StartsOver rows e) := by
  obtain ⟨k, a⟩ := e
  cases a <;> exact inferInstanceAs (Decidable (∃ t ∈ rows k, t.state = .failed ∧ _))

/-! ## The data -/

def Task.HasError (t : Task) : Prop := t.taskError ≠ none ∨ t.taskErrorData ≠ none

/-- Task `k` is failed, with the error of `t`. -/
def FailedWith (k : TaskId) (t : Task) (rows : TaskRows) : Prop :=
  ∃ u, rows k = some u ∧ u.state = .failed ∧ u.taskError = t.taskError ∧
    u.taskErrorData = t.taskErrorData

/-- After the steps `es` the data of every task agree with its state: `date_completed` is set on a
task that has ended, and there is an error on a failed task, or on a cancelled one that had failed
with it. -/
def DataReset (reg : Registry) (rows₀ : TaskRows) (es : List (TaskId × AttemptAct))
    (rows : TaskRows) : Prop :=
  ∀ k t, rows k = some t → (t.dateCompleted ≠ none ↔ t.state ∈ terminalStates) ∧
    (t.HasError → t.state = .failed ∨
      (t.state = .cancelled ∧ Sometime (attemptStep reg) (FailedWith k t) rows₀ es))

/-- What `DataReset` asks of the task itself. -/
structure AttemptData (t : Task) : Prop where
  completed : t.dateCompleted ≠ none ↔ t.state ∈ terminalStates
  error : t.HasError → t.state = .failed ∨ t.state = .cancelled

variable {reg : Registry} {rows rows' rows₀ : TaskRows} {t t' : Task} {o o' : Option Task}
  {k : TaskId} {e : TaskId × AttemptAct} {es : List (TaskId × AttemptAct)}

theorem not_hasError_create (v : TaskVals) : ¬ v.create.HasError := by
  simp [Task.HasError, TaskVals.create]

theorem AttemptData.create (v : TaskVals) : AttemptData v.create where
  completed := by simp [TaskVals.create, terminalStates]
  error h := absurd h (not_hasError_create v)

theorem AttemptData.unset (h : AttemptData t) (ha : t.state ∈ activeStates) :
    t.dateCompleted = none ∧ t.taskError = none ∧ t.taskErrorData = none := by
  have hlive : t.live = true := live_iff.2 ha
  have hterm : t.state ∉ terminalStates := by
    intro ht
    rw [not_live_of_terminal ht] at hlive
    cases hlive
  have herr : ¬ t.HasError := by
    intro he
    rcases h.error he with hs | hs <;> rw [hs] at ha <;> exact absurd ha (by decide)
  refine ⟨by_contra fun hd => hterm (h.completed.1 hd), ?_⟩
  simpa [Task.HasError, not_or] using herr

theorem AttemptData.of_unset (ha : t.state ∈ activeStates) (hd : t.dateCompleted = none)
    (he : t.taskError = none) (hx : t.taskErrorData = none) : AttemptData t where
  completed := by
    have hterm : t.state ∉ terminalStates := by
      intro ht
      have hlive : t.live = true := live_iff.2 ha
      rw [not_live_of_terminal ht] at hlive
      cases hlive
    simp [hd, hterm]
  error h := by simp [Task.HasError, he, hx] at h

/-! ## What a statement makes of the data -/

/-- A step that does not start over: it keeps the data in order, and a task that it leaves cancelled
has the error that it had. -/
structure Onward (t t' : Task) : Prop where
  data : AttemptData t → AttemptData t'
  error : t'.state = .cancelled → t'.taskError = t.taskError ∧ t'.taskErrorData = t.taskErrorData

theorem Onward.same (hs : t'.state = t.state) (hd : t'.dateCompleted = t.dateCompleted)
    (he : t'.taskError = t.taskError) (hx : t'.taskErrorData = t.taskErrorData) : Onward t t' where
  data h := by
    refine ⟨?_, fun herr => ?_⟩
    · rw [hd, hs]; exact h.completed
    · rw [hs]; exact h.error (by rwa [Task.HasError, he, hx] at herr)
  error _ := ⟨he, hx⟩

theorem Onward.active (ha : t.state ∈ activeStates) (ha' : t'.state ∈ activeStates)
    (hd : t'.dateCompleted = t.dateCompleted)
    (he : t'.taskError = none ∨ t'.taskError = t.taskError)
    (hx : t'.taskErrorData = t.taskErrorData) : Onward t t' where
  data h := by
    obtain ⟨h1, h2, h3⟩ := h.unset ha
    refine .of_unset ha' (hd.trans h1) ?_ (hx.trans h3)
    rcases he with he | he
    · exact he
    · exact he.trans h2
  error hc := by rw [hc] at ha'; exact absurd ha' (by decide)

theorem active_of_allowed {s : TaskState} (h : s ∈ allowedTransitions t.state)
    (hs : s ∉ [TaskState.pending, .cancelled]) : t.state ∈ activeStates :=
  live_iff.1 (of_allowed_live h hs)

theorem actionDone_onward {now : ℕ} {result : Option Json}
    (h : actionDone now result t = .ok t') : Onward t t' := by
  obtain ⟨hs, rfl⟩ := checked_ok h
  have ha := active_of_allowed hs (by decide)
  refine ⟨fun hd => ?_, nofun⟩
  obtain ⟨-, h2, h3⟩ := hd.unset ha
  exact ⟨by simp [terminalStates], fun he => by simp [Task.HasError, h2, h3] at he⟩

theorem actionFail_onward {now : ℕ} {error : Option String} {data : Option Json}
    (h : actionFail now error data t = .ok t') : Onward t t' := by
  obtain ⟨-, rfl⟩ := checked_ok h
  exact ⟨fun _ => ⟨by simp [terminalStates], fun _ => .inl rfl⟩, nofun⟩

theorem actionCancel_onward {now : ℕ} (h : actionCancel now t = .ok t') : Onward t t' := by
  obtain ⟨-, rfl⟩ := checked_ok h
  exact ⟨fun _ => ⟨by simp [terminalStates], fun _ => .inr rfl⟩, fun _ => ⟨rfl, rfl⟩⟩

theorem actionAutoRetry_onward {eta : Option ℕ} (ha : t.state ∈ activeStates) :
    Onward t (actionAutoRetry eta t) :=
  .active ha (show TaskState.pending ∈ activeStates by decide) rfl (.inl rfl) rfl

theorem UserAct.onward {u : UserAct} (hr : (RowAct.user u).putsBack = false)
    (h : u.onTask t = .ok (some t')) : Onward t t' := by
  cases u with
  | create v => cases h
  | lookupUniqueKey key =>
    obtain rfl := Option.some.inj (Except.ok.inj h)
    exact .same rfl rfl rfl rfl
  | write v =>
    obtain rfl := Option.some.inj (Except.ok.inj h)
    exact .same rfl rfl rfl rfl
  | storePhaseData vals =>
    obtain rfl := Option.some.inj (Except.ok.inj h)
    exact .same rfl rfl rfl rfl
  | enterPhase phase childIds =>
    obtain rfl := Option.some.inj (Except.ok.inj h)
    exact .same rfl rfl rfl rfl
  | actionCancel now => exact of_map_some (fun u hu => actionCancel_onward hu) h
  | actionRetry eta => cases hr
  | unlink => cases h

theorem handleFailure_onward {now : ℕ} {exc : Exc} {tb : String} {read : Task}
    (ha : t.state ∈ activeStates) (h : handleFailure reg now exc tb read t = .ok t') :
    Onward t t' := by
  rcases handleFailure_cases h with ⟨-, _, rfl⟩ | ⟨-, h⟩
  · exact actionAutoRetry_onward ha
  · exact actionFail_onward h

theorem handleLostExecution_onward {now : ℕ} {error : String} (ha : t.state ∈ activeStates)
    (h : handleLostExecution reg now error t = .ok t') : Onward t t' := by
  rcases handleLostExecution_cases h with ⟨-, h⟩ | ⟨-, -, rfl⟩ | ⟨-, -, h⟩
  · obtain ⟨-, rfl⟩ := checked_ok h
    exact .active ha (show TaskState.pending ∈ activeStates by decide) rfl (.inr rfl) rfl
  · exact actionAutoRetry_onward ha
  · -- the runner is cleared before
    obtain ⟨hd, he⟩ := actionFail_onward h
    exact ⟨fun ht => hd ⟨ht.completed, ht.error⟩, he⟩

theorem RowAct.onward {a : RowAct} (hr : a.putsBack = true → t.state ≠ .failed)
    (hs : a.selects (some t) = true) (h : a.run reg (some t) = .ok (some t')) : Onward t t' := by
  change a.onTask reg t = .ok (some t') at h
  have inFlight_active : ∀ {s : TaskState}, s ∈ inFlightStates → s ∈ activeStates := by
    intro s hs
    revert hs
    cases s <;> decide
  cases a with
  | user u =>
    by_cases hb : (RowAct.user u).putsBack = true
    · -- a task that is not failed cannot be retried
      cases u with
      | actionRetry eta =>
        obtain ⟨hf, -⟩ := actionRetry_ok (ok_of_map_some h)
        exact absurd hf (hr hb)
      | _ => cases hb
    · exact UserAct.onward (Bool.eq_false_iff.2 hb) h
  | assign worker uuid =>
    refine of_map_some (fun u hu => ?_) h
    obtain ⟨hp, rfl⟩ := claimRow_eq hu
    exact .active (by rw [hp]; decide) (show TaskState.assigned ∈ activeStates by decide) rfl
      (.inr rfl) rfl
  | start now =>
    obtain ⟨hst, rfl⟩ := checked_some h
    exact .active (active_of_allowed hst (by decide))
      (show TaskState.running ∈ activeStates by decide) rfl (.inr rfl) rfl
  | stuck =>
    obtain ⟨hst, rfl⟩ := checked_some h
    exact .active (active_of_allowed hst (by decide))
      (show TaskState.stuck ∈ activeStates by decide) rfl (.inr rfl) rfl
  | waitChildren =>
    obtain ⟨hst, rfl⟩ := checked_some h
    exact .active (active_of_allowed hst (by decide))
      (show TaskState.waiting ∈ activeStates by decide) rfl (.inr rfl) rfl
  | progress value =>
    obtain rfl := Option.some.inj (Except.ok.inj h)
    exact .same rfl rfl rfl rfl
  | done runner now result => exact of_map_some (fun u hu => actionDone_onward hu) h
  | failure runner now exc traceback read =>
    have ha := inFlight_active (final_in_flight (finalizable_iff.1 hs).1)
    exact of_map_some (fun u hu => handleFailure_onward ha hu) h
  | lostExecution runner worker now error =>
    have ha := inFlight_active (finalizable_iff.1 hs).1
    exact of_map_some (fun u hu => handleLostExecution_onward ha hu) h
  | autoRetry now => exact absurd (autoRetryable_failed hs) (hr rfl)
  | unown =>
    obtain rfl := Option.some.inj (Except.ok.inj h)
    exact .same rfl rfl rfl rfl
  | lockWaiting =>
    obtain rfl := Option.some.inj (Except.ok.inj h)
    exact .same rfl rfl rfl rfl
  | move now m =>
    cases m with
    | done result => exact of_map_some (fun u hu => actionDone_onward hu) h
    | fail error => exact of_map_some (fun u hu => actionFail_onward hu) h
    | cancel => exact of_map_some (fun u hu => actionCancel_onward hu) h

/-! ## Runs -/

theorem attemptStep_some (h : attemptStep reg rows e = some rows') :
    ∃ o, e.2.onRow reg (rows e.1) = .ok o ∧ rows' = Function.update rows e.1 o := by
  unfold attemptStep at h
  split at h
  · next o ho => exact ⟨o, ho, (Option.some.inj h).symm⟩
  · cases h

/-- What a step that does not start over leaves on its row: a new task, or the task taken onward. -/
theorem AttemptAct.onward (hn : ¬ StartsOver rows e)
    (h : e.2.onRow reg (rows e.1) = .ok (some t')) :
    (∃ v : TaskVals, t' = v.create) ∨ ∃ t, rows e.1 = some t ∧ Onward t t' := by
  obtain ⟨k, a⟩ := e
  cases a with
  | statement a =>
    change (if a.selects (rows k) then a.run reg (rows k) else .ok (rows k)) = .ok (some t') at h
    split_ifs at h with hs
    · cases hrow : rows k with
      | none =>
        rw [hrow] at h
        cases a with
        | user u =>
          cases u with
          | create v => exact .inl ⟨v, (Option.some.inj (Except.ok.inj h)).symm⟩
          | _ => cases h
        | _ => cases h
      | some t =>
        rw [hrow] at h hs
        refine .inr ⟨t, rfl, RowAct.onward (fun hb hf => hn ?_) hs h⟩
        exact ⟨t, hrow, hf, hb, hs⟩
    · exact .inr ⟨t', Except.ok.inj h, .same rfl rfl rfl rfl⟩
  | actionFail now error errorData =>
    change AttemptAct.onRow reg (.actionFail now error errorData) (rows k) = .ok (some t') at h
    cases hrow : rows k with
    | none => rw [hrow] at h; cases h
    | some t =>
      rw [hrow] at h
      exact .inr ⟨t, rfl, actionFail_onward (ok_of_map_some h)⟩

theorem DataReset.data (h : DataReset reg rows₀ es rows) (ht : rows k = some t) :
    AttemptData t := by
  obtain ⟨hd, he⟩ := h k t ht
  exact ⟨hd, fun herr => (he herr).imp id And.left⟩

theorem DataReset.start (h0 : ∀ k t, rows₀ k = some t → ∃ v : TaskVals, t = v.create) :
    DataReset reg rows₀ [] rows₀ := by
  intro k t ht
  obtain ⟨v, rfl⟩ := h0 k t ht
  exact ⟨(AttemptData.create v).completed, fun he => absurd he (not_hasError_create v)⟩

/-- **Step.** -/
theorem DataReset.step (hp : Path (attemptStep reg) anyStep rows₀ es rows)
    (hi : DataReset reg rows₀ es rows) (hn : ¬ StartsOver rows e)
    (h : attemptStep reg rows e = some rows') : DataReset reg rows₀ (es ++ [e]) rows' := by
  obtain ⟨o, ho, rfl⟩ := attemptStep_some h
  intro k t' ht'
  by_cases hk : k = e.1
  · subst hk
    rw [Function.update_self] at ht'
    subst ht'
    rcases AttemptAct.onward hn ho with ⟨v, rfl⟩ | ⟨t, ht, hon⟩
    · exact ⟨(AttemptData.create v).completed, fun he => absurd he (not_hasError_create v)⟩
    · have hd := hon.data (hi.data ht)
      refine ⟨hd.completed, fun herr => (hd.error herr).imp id fun hc => ⟨hc, ?_⟩⟩
      -- the error is that of the task before: it was failed, or cancelled with it already
      obtain ⟨he, hx⟩ := hon.error hc
      unfold Task.HasError at herr
      rw [he, hx] at herr
      rcases (hi _ t ht).2 herr with hf | ⟨-, hs⟩
      · exact (hp.sometime ⟨t, ht, hf, he.symm, hx.symm⟩).concat e
      · unfold FailedWith at hs ⊢
        rw [he, hx]
        exact hs.concat e
  · rw [Function.update_of_ne hk] at ht'
    obtain ⟨hd, he⟩ := hi k t' ht'
    exact ⟨hd, fun herr => (he herr).imp id fun hc => ⟨hc.1, hc.2.concat e⟩⟩

theorem putsBack_row {a : RowAct} (hb : a.putsBack = true) (h : a.run reg (some t) = .ok o) :
    ∃ t', o = some t' ∧ t'.state = .pending ∧ t'.dateCompleted = t.dateCompleted := by
  cases a with
  | user u =>
    cases u with
    | actionRetry eta =>
      obtain ⟨t', ht', rfl⟩ := map_some_ok h
      obtain ⟨-, rfl⟩ := actionRetry_ok ht'
      exact ⟨_, rfl, rfl, rfl⟩
    | _ => cases hb
  | autoRetry now =>
    obtain rfl := Except.ok.inj h
    exact ⟨_, rfl, rfl, rfl⟩
  | _ => cases hb

/-- **Starting over.** A step that puts a failed task back leaves stale data. -/
theorem StartsOver.stale (hi : DataReset reg rows₀ es rows) (hs : StartsOver rows e)
    (h : attemptStep reg rows e = some rows') : ¬ DataReset reg rows₀ (es ++ [e]) rows' := by
  obtain ⟨o, ho, rfl⟩ := attemptStep_some h
  obtain ⟨k, a⟩ := e
  obtain ⟨t, ht, hf, hb⟩ := hs
  have ht : rows k = some t := ht
  cases a with
  | actionFail now error errorData => exact hb.elim
  | statement a =>
    obtain ⟨hb, hsel⟩ := hb
    change (if a.selects (rows k) then a.run reg (rows k) else .ok (rows k)) = .ok o at ho
    rw [ht, if_pos hsel] at ho
    obtain ⟨t', rfl, hpend, hdate⟩ := putsBack_row hb ho
    have hset : t.dateCompleted ≠ none := (hi k t ht).1.2 (by rw [hf]; decide)
    intro hi'
    have hterm := (hi' k t' (Function.update_self ..)).1.1 (by rw [hdate]; exact hset)
    rw [hpend] at hterm
    exact absurd hterm (by decide)

/-- **Attempt data.** In a run from freshly created tasks the data of the tasks agree with their
states all along if and only if no step puts a failed task back to `pending`. -/
theorem attempt_data_iff (h0 : ∀ k t, rows₀ k = some t → ∃ v : TaskVals, t = v.create)
    (hp : Path (attemptStep reg) anyStep rows₀ es rows) :
    (∀ es₁ es₂ rows₁, es = es₁ ++ es₂ → Path (attemptStep reg) anyStep rows₀ es₁ rows₁ →
      DataReset reg rows₀ es₁ rows₁) ↔
    ∀ rows₁ e rows₂, Takes (attemptStep reg) rows₀ es rows₁ e rows₂ → ¬ StartsOver rows₁ e := by
  constructor
  · rintro h rows₁ e rows₂ ⟨es₁, es₂, rfl, hpre, hstep⟩ hs
    have hi := h es₁ (e :: es₂) rows₁ rfl hpre
    exact hs.stale hi hstep (h (es₁ ++ [e]) es₂ rows₂ (by simp) (hpre.concat trivial hstep))
  · rintro h es₁ es₂ rows₁ rfl hpre
    have hok : Path (attemptStep reg) (fun rows e => ¬ StartsOver rows e) rows₀ es₁ rows₁ :=
      hpre.of_takes fun _ _ _ ht => h _ _ _ (ht.append es₂)
    exact hok.inv_history (fun es rows e rows' hp hi hn hs => hi.step hp hn hs) (.start h0)

/-! ## The transactions of the queue as steps -/

theorem runActs_attempts {acts : List RowAct} {b : Bool} {q : Bool × Option Task}
    (h : runActs reg acts (b, rows k) = .ok q) :
    Path (attemptStep reg) anyStep rows (acts.map fun a => (k, .statement a))
      (Function.update rows k q.2) := by
  induction acts generalizing rows b with
  | nil =>
    obtain rfl := Except.ok.inj h
    rw [Function.update_eq_self]
    exact .nil rows
  | cons a acts ih =>
    obtain ⟨p, hp, hrest⟩ := runActs_cons h
    have hrow : AttemptAct.onRow reg (.statement a) (rows k) = .ok p.2 := by
      show (if a.selects (rows k) then a.run reg (rows k) else .ok (rows k)) = .ok p.2
      rcases RowAct.exec_run hp with ⟨hs, hr, -⟩ | ⟨hs, rfl⟩
      · rw [if_pos hs]; exact hr
      · rw [if_neg (by rw [hs]; decide)]
    have hstep : attemptStep reg rows (k, .statement a) = some (Function.update rows k p.2) := by
      unfold attemptStep
      rw [hrow]
    have htail := @ih (Function.update rows k p.2) p.1 (by rw [Function.update_self]; exact hrest)
    rw [Function.update_idem] at htail
    exact .cons trivial hstep htail

theorem commit_attempts {L : List TaskId} (hL : L.Nodup)
    (hrun : ∀ k ∈ L, ∃ acts b, runActs reg acts (false, rows k) = .ok (b, rows' k))
    (hsame : ∀ k, k ∉ L → rows' k = rows k) :
    ∃ es, Path (attemptStep reg) anyStep rows es rows' ∧ ∀ e ∈ es, ∃ a, e.2 = .statement a := by
  induction L generalizing rows with
  | nil =>
    obtain rfl : rows' = rows := funext fun k => hsame k List.not_mem_nil
    exact ⟨[], .nil _, List.forall_mem_nil _⟩
  | cons k L ih =>
    obtain ⟨hk, hL⟩ := List.nodup_cons.1 hL
    obtain ⟨acts, b, hacts⟩ := hrun k List.mem_cons_self
    have hfirst := runActs_attempts hacts
    obtain ⟨es, hes, hall⟩ := @ih (Function.update rows k (rows' k)) hL
      (fun k' hk' => by
        have hne : k' ≠ k := fun he => hk (he ▸ hk')
        rw [Function.update_of_ne hne]
        exact hrun k' (List.mem_cons_of_mem _ hk'))
      (fun k' hk' => by
        by_cases he : k' = k
        · rw [he, Function.update_self]
        · rw [Function.update_of_ne he]
          exact hsame k' (List.not_mem_cons_of_ne_of_not_mem he hk'))
    refine ⟨_, hfirst.append hes, fun e he => ?_⟩
    rcases List.mem_append.1 he with he | he
    · obtain ⟨a, -, rfl⟩ := List.mem_map.1 he
      exact ⟨a, rfl⟩
    · exact hall e he

/-- **Runs of the queue.** What the transactions of the queue make of the table, however they
interleave, single statements make of it too. -/
theorem Sys.attempts {s s' : Sys} {es : List Ev} (h0 : Start s)
    (hp : Path (Sys.step reg) anyStep s es s') :
    ∃ es', Path (attemptStep reg) anyStep s.db.cur.row es' s'.db.cur.row ∧
      ∀ e ∈ es', ∃ a, e.2 = .statement a := by
  refine (hp.inv_of (J := Inv reg) (I := fun s' => ∃ es',
    Path (attemptStep reg) anyStep s.db.cur.row es' s'.db.cur.row ∧
      ∀ e ∈ es', ∃ a, e.2 = .statement a) (fun _ _ _ hi _ h => hi.step h) ?_ h0.inv
    ⟨[], .nil _, List.forall_mem_nil _⟩)
  rintro s₁ ev s₂ hi ⟨es₁, h1, hall₁⟩ - hstep
  have key : ∃ es₂, Path (attemptStep reg) anyStep s₁.db.cur.row es₂ s₂.db.cur.row ∧
      ∀ e ∈ es₂, ∃ a, e.2 = .statement a := by
    by_cases hc : ∃ i, ev = .db (.commit i)
    · obtain ⟨i, rfl⟩ := hc
      obtain ⟨x, hx, -, hs⟩ := Sys.step_commit hstep
      refine commit_attempts (hi.wf.txn i x hx).nodup (fun k hk => ?_) fun k hk => ?_
      · obtain ⟨b, hrun⟩ := commit_row hi.wf hs hx hk
        exact ⟨_, b, hrun⟩
      · rcases hs.row_change hi.wf k with hsame | ⟨j, y, o, he, hy, hky, -⟩
        · exact hsame
        · obtain rfl := Event.commit.inj he
          obtain rfl := Option.some.inj (hx.symm.trans hy)
          exact absurd hky hk
    · rw [Sys.cur_eq hstep fun i he => hc ⟨i, he⟩]
      exact ⟨[], .nil _, List.forall_mem_nil _⟩
  obtain ⟨es₂, h2, hall₂⟩ := key
  refine ⟨es₁ ++ es₂, h1.append h2, fun e he => ?_⟩
  rcases List.mem_append.1 he with he | he
  · exact hall₁ e he
  · exact hall₂ e he

/-! ## A task that fails -/

/-- Claimed, started, and failed by its own code. -/
def failedWithData : List (TaskId × AttemptAct) := [
  (1, .statement (.assign 1 7)), (1, .statement (.start 101)),
  (1, .actionFail 102 (some "boom") (some (.text "\x7b\"line\": 3\x7d")))]

theorem oneTask_created : ∀ k t, oneTask.get k = some t → ∃ v : TaskVals, t = v.create := by
  intro k t ht
  obtain ⟨hm, -⟩ := Table.get_eq_some_iff.1 ht
  obtain rfl := List.mem_singleton.1 hm
  exact ⟨exportVals, rfl⟩

/-- Cancelled after it has failed, the task keeps its error; no step starts over. -/
theorem cancelled_with_error : ∃ rows, Path (attemptStep []) anyStep oneTask.get
      (failedWithData ++ [(1, .statement (.user (.actionCancel 103)))]) rows ∧
    (rows 1).map Task.state = some .cancelled ∧
    DataReset [] oneTask.get
      (failedWithData ++ [(1, .statement (.user (.actionCancel 103)))]) rows := by
  have hp : Path (attemptStep []) (fun rows e => ¬ StartsOver rows e) oneTask.get
      (failedWithData ++ [(1, .statement (.user (.actionCancel 103)))]) (reached _ _ _ _) :=
    path_reached (by decide +kernel)
  have hany : Path (attemptStep []) anyStep oneTask.get
      (failedWithData ++ [(1, .statement (.user (.actionCancel 103)))]) _ :=
    hp.imp fun _ _ _ => trivial
  refine ⟨_, hany, by decide +kernel, ?_⟩
  exact (attempt_data_iff oneTask_created hany).2 (fun _ _ _ ht => (hp.takes ht).2.1) _ [] _
    (List.append_nil _).symm hany

/-- After `action_retry` the task is pending, and has ended by its data. -/
theorem retried_with_stale_data : ∃ rows t, Path (attemptStep []) anyStep oneTask.get
      (failedWithData ++ [(1, .statement (.user (.actionRetry none)))]) rows ∧
    rows 1 = some t ∧ t.state = .pending ∧ t.dateCompleted ≠ none ∧ t.taskErrorData ≠ none ∧
    ¬ DataReset [] oneTask.get
      (failedWithData ++ [(1, .statement (.user (.actionRetry none)))]) rows := by
  have hp : Path (attemptStep []) anyStep oneTask.get
      (failedWithData ++ [(1, .statement (.user (.actionRetry none)))]) (reached _ _ _ _) :=
    path_reached (by decide +kernel)
  refine ⟨_, _, hp, rfl, rfl, nofun, nofun, fun hi => ?_⟩
  have hterm := (hi 1 _ rfl).1.1 nofun
  exact absurd hterm (by decide +kernel)

end GenericTaskQueue
