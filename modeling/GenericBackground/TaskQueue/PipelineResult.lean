import GenericBackground.TaskQueue.MultiPhase

/-!
# The result of a pipeline

A root is completed by a check, in which `on_all_children_done` finds no phase left and returns what
`aggregate_result` returns, or by its own transaction of `execute()`, when no phase plans any
children: then there is nothing to aggregate, and the result is `None`.

`aggregate_result` gets the results of the wave that has just ended. That is the wave of the last
phase if the last phase has planned children (`pipeline_aggregated`).
-/

namespace GenericTaskQueue

open Query Lts

/-! ## Calls of `aggregate_result` -/

structure AggregateCall where
  lastResults : List ChildResult
  value : Option Json
  deriving DecidableEq, Repr

/-- `onAllChildrenDone`, with its calls of `aggregate_result` beside those of `plan_phase`. -/
def onAllChildrenDoneRecorded (E : Env) (phases : List String) (plan : PlanPhase)
    (aggregate : List ChildResult → Except Exc (Option Json)) :
    Hook (List PlanCall × List AggregateCall) := fun p T =>
  match childResults T (waveIds p) with
  | .error exc => .error exc
  | .ok prev =>
    match startWave E plan (some prev) p.id (phases.drop (p.phase + 1)) (p.phase + 1) T with
    | .error exc => .error exc
    | .ok (T', spawned, calls) =>
      if spawned then .ok (T', none, calls, [])
      else match aggregate prev with
        | .error exc => .error exc
        | .ok v => .ok (T', v, calls, [⟨prev, v⟩])

/-- The calls of `aggregate_result` in a step that is kept. -/
def Pipeline.aggregated (phases : List String) (id : TaskId) (s : Pipeline) :
    PipelineEv → List AggregateCall
  | .check E plan aggregate onFailure =>
    match checkWaitingParentWith E (onAllChildrenDoneRecorded E phases plan aggregate)
        ⟨fun _ => {}, fun _ => onFailure⟩ id s.table with
    | .ok (_, _, some (_, calls)) => calls
    | _ => []
  | _ => []

/-! ## What is recorded of a hook does not matter -/

section Record

variable {γ δ : Type} {E : Env} {hook : Hook γ} {hook' : Hook δ} {f : γ → δ} {hooks : Hooks}
  {p : Task} {T T' : Table}

theorem completeParentWith_map
    (h : hook' p T = (hook p T).map fun r => (r.1, r.2.1, f r.2.2)) :
    completeParentWith E hook' hooks p T =
      (completeParentWith E hook hooks p T).map fun r => (r.1, r.2.1, r.2.2.map f) := by
  unfold completeParentWith
  rw [h]
  cases hook p T with
  | error exc =>
    cases exc with
    | transientError => rfl
    | retryTask after => rfl
    | other text =>
      show Except.map _ _ = Except.map _ (Except.map _ _)
      cases failParent E hooks (.raised (.other text)) ("on_all_children_done failed: " ++ text)
        p T <;> rfl
  | ok r =>
    obtain ⟨T₁, v, g⟩ := r
    simp only [Except.map]
    split_ifs
    · rfl
    · rfl
    · cases T₁.modify p.id (actionDone E.now v) with
      | error e => cases e; rfl
      | ok T₂ => rfl

theorem completeParentWith_done {g : γ} {calls : List HookCall} {p' : Task}
    (h : completeParentWith E hook hooks p T = .ok (T', calls, some g))
    (hp' : T'.get p.id = some p') (hdone : p'.state = .done)
    (hhook : ∀ T₁ v g, hook p T = .ok (T₁, v, g) → ∀ t, T₁.get p.id = some t → t.state ≠ .done) :
    ∃ T₁, hook p T = .ok (T₁, p'.taskResult, g) ∧ ∀ c ∈ T₁.children p.id,
      c.state ∉ activeStates := by
  unfold completeParentWith at h
  cases hr : hook p T with
  | error exc =>
    rw [hr] at h
    cases exc with
    | transientError => cases h
    | retryTask after => cases h
    | other text =>
      simp only at h
      obtain ⟨r, -, hr⟩ := map_ok h
      cases hr
  | ok r =>
    obtain ⟨T₁, v, g₁⟩ := r
    rw [hr] at h
    simp only at h
    split_ifs at h with hw hact
    · obtain ⟨rfl, hrest⟩ := Prod.mk.inj (Except.ok.inj h)
      exact absurd hdone (hhook _ _ _ hr _ hp')
    · obtain ⟨rfl, hrest⟩ := Prod.mk.inj (Except.ok.inj h)
      exact absurd hdone (hhook _ _ _ hr _ hp')
    · cases hm : T₁.modify p.id (actionDone E.now v) with
      | error e =>
        rw [hm] at h
        cases e
        cases h
      | ok T₂ =>
        rw [hm] at h
        obtain ⟨rfl, hrest⟩ := Prod.mk.inj (Except.ok.inj h)
        obtain rfl := Option.some.inj (Prod.mk.inj hrest).2
        cases ht : T₁.get p.id with
        | none => rw [ht] at hw; exact absurd nofun hw
        | some t =>
          obtain ⟨t', ht', rfl⟩ := Table.modify_ok ht hm
          obtain ⟨-, rfl⟩ := checked_ok ht'
          rw [Table.get_update_self ht] at hp'
          obtain rfl := Option.some.inj hp'
          refine ⟨T₁, rfl, fun c hc ha => hact ?_⟩
          exact List.any_eq_true.2 ⟨c, hc, decide_eq_true ha⟩

end Record

/-! ## The step that completes the root -/

section Driver

variable {E : Env} {phases : List String} {plan : PlanPhase} {id : TaskId}
  {aggregate : List ChildResult → Except Exc (Option Json)} {onFailure : HookRun}
  {hooks : Hooks} {p p' : Task} {T T' T₁ : Table} {v : Option Json} {calls : List PlanCall}
  {aggs : List AggregateCall}

theorem onAllChildrenDone_recorded (p : Task) (T : Table) :
    onAllChildrenDone E phases plan aggregate p T =
      (onAllChildrenDoneRecorded E phases plan aggregate p T).map
        fun r => (r.1, r.2.1, r.2.2.1) := by
  unfold onAllChildrenDone onAllChildrenDoneRecorded
  cases childResults T (waveIds p) with
  | error exc => rfl
  | ok prev =>
    simp only
    cases startWave E plan (some prev) p.id (phases.drop (p.phase + 1)) (p.phase + 1) T with
    | error exc => rfl
    | ok r =>
      obtain ⟨T', spawned, calls⟩ := r
      cases spawned with
      | true => rfl
      | false => cases aggregate prev <;> rfl

/-- The check with the calls recorded is the check. -/
theorem check_recorded : checkWaitingParentWith E (onAllChildrenDone E phases plan aggregate) hooks
    p.id T = (checkWaitingParentWith E (onAllChildrenDoneRecorded E phases plan aggregate) hooks
      p.id T).map fun r => (r.1, r.2.1, r.2.2.map Prod.fst) := by
  unfold checkWaitingParentWith
  cases T.get p.id with
  | none => rfl
  | some q =>
    simp only
    split_ifs
    · rfl
    · cases T.modify p.id (actionDone E.now none) with
      | error e => cases e; rfl
      | ok T' => rfl
    · rfl
    · cases failParent E hooks _ _ q T <;> rfl
    · rfl
    · exact completeParentWith_map (onAllChildrenDone_recorded q T)

theorem recorded_cases (hp : T.get p.id = some p) (hw : p.state = .waiting)
    (h : onAllChildrenDoneRecorded E phases plan aggregate p T = .ok (T₁, v, calls, aggs)) :
    (∀ t, T₁.get p.id = some t → t.state ≠ .done) ∧
      ((∀ c ∈ T₁.children p.id, c.state ∉ activeStates) →
        aggs = [⟨resultsOf T (waveIds p), v⟩] ∧ aggregate (resultsOf T (waveIds p)) = .ok v) := by
  unfold onAllChildrenDoneRecorded at h
  cases hprev : childResults T (waveIds p) with
  | error exc => rw [hprev] at h; cases h
  | ok prev =>
    obtain rfl : resultsOf T (waveIds p) = prev := by
      unfold childResults at hprev
      split_ifs at hprev
      exact Except.ok.inj hprev
    rw [hprev] at h
    simp only at h
    cases hsw : startWave E plan (some (resultsOf T (waveIds p))) p.id
        (phases.drop (p.phase + 1)) (p.phase + 1) T with
    | error exc => rw [hsw] at h; cases h
    | ok r =>
      obtain ⟨T₂, spawned, calls₂⟩ := r
      rw [hsw] at h
      obtain ⟨p₂, hp₂, -, -, hsame, hwave⟩ := (startWave_spec hp hsw).root
      cases spawned with
      | true =>
        obtain ⟨rfl, -⟩ := Prod.mk.inj (Except.ok.inj h)
        obtain ⟨l, c, -, -, hne, hadv, hw₂, -⟩ := hwave rfl
        refine ⟨fun t ht => ?_, fun hact => ?_⟩
        · obtain rfl := Option.some.inj (hp₂.symm.trans ht)
          rw [hw₂]
          decide
        · -- the children of the new wave are pending
          obtain ⟨k, hk⟩ := List.exists_mem_of_ne_nil _ hne
          obtain ⟨-, d, hd, hdp, hds⟩ := hadv.wave k hk
          refine absurd ?_ (hact d (Table.mem_children.2 ⟨(Table.get_eq_some_iff.1 hd).1, hdp⟩))
          rw [hds]
          decide
      | false =>
        simp only [Bool.false_eq_true, if_false] at h
        cases hagg : aggregate (resultsOf T (waveIds p)) with
        | error exc => rw [hagg] at h; cases h
        | ok v' =>
          rw [hagg] at h
          obtain ⟨rfl, hv⟩ := Prod.mk.inj (Except.ok.inj h)
          obtain ⟨rfl, hcalls⟩ := Prod.mk.inj hv
          obtain ⟨-, rfl⟩ := Prod.mk.inj hcalls
          refine ⟨fun t ht => ?_, fun _ => ⟨rfl, rfl⟩⟩
          obtain rfl := Option.some.inj (hp₂.symm.trans ht)
          rw [hsame rfl, hw]
          decide

theorem executeRoot_result (hp : T.get id = some p)
    (h : executeRoot E phases plan id T = .ok (T', calls)) (hp' : T'.get id = some p')
    (hdone : p'.state = .done) : p'.taskResult = none ∧ ∀ c ∈ calls, c.wave = [] := by
  unfold executeRoot at h
  cases hsw : startWave E plan none id phases 0 T with
  | error exc => rw [hsw] at h; cases h
  | ok r =>
    obtain ⟨T₁, spawned, calls₁⟩ := r
    rw [hsw] at h
    have hst := startWave_spec hp hsw
    obtain ⟨p₁, hp₁, -, -, -, hwave⟩ := hst.root
    cases spawned with
    | true =>
      obtain ⟨rfl, -⟩ := Prod.mk.inj (Except.ok.inj h)
      obtain ⟨l, c, -, -, -, -, hw₁, -⟩ := hwave rfl
      obtain rfl := Option.some.inj (hp₁.symm.trans hp')
      rw [hw₁] at hdone
      cases hdone
    | false =>
      simp only [Bool.false_eq_true, if_false] at h
      cases hm : T₁.modify id (actionDone E.now none) with
      | error e => rw [hm] at h; cases e; cases h
      | ok T₂ =>
        rw [hm] at h
        obtain ⟨rfl, rfl⟩ := Prod.mk.inj (Except.ok.inj h)
        obtain ⟨t', ht', rfl⟩ := Table.modify_ok hp₁ hm
        obtain ⟨-, rfl⟩ := checked_ok ht'
        rw [Table.get_update_self hp₁] at hp'
        obtain rfl := Option.some.inj hp'
        exact ⟨rfl, (hst.exhausted rfl).1⟩

end Driver

namespace Pipeline

variable {phases : List String} {id : TaskId} {s s' : Pipeline} {ev : PipelineEv} {p p' : Task}

/-- The root is completed by `execute()`: no phase has planned children, and nothing is
aggregated. -/
def CompletedEmpty (phases : List String) (s s' : Pipeline) (id : TaskId) (ev : PipelineEv)
    (p' : Task) : Prop :=
  (∃ E plan, ev = .execute E plan) ∧ (∀ c ∈ s'.plans, c.wave = []) ∧
    s.aggregated phases id ev = [] ∧ p'.taskResult = none

/-- The root is completed by a check: a phase has planned children, `aggregate_result` is called
once, its value is the result of the root, and it gets the results of the children of the last
phase, if that has planned any. -/
def CompletedByCheck (phases : List String) (s s' : Pipeline) (id : TaskId) (ev : PipelineEv)
    (p' : Task) : Prop :=
  ∃ E plan aggregate onFailure last, ev = .check E plan aggregate onFailure ∧
    (∃ c ∈ s'.plans, c.wave ≠ []) ∧ s.aggregated phases id ev = [⟨last, p'.taskResult⟩] ∧
    aggregate last = .ok p'.taskResult ∧
    ∀ l c, s'.plans = l ++ [c] → c.wave ≠ [] → last = resultsOf s'.table c.wave

theorem completed_by_execute {E : Env} {plan : PlanPhase} (ho : s.Ok phases id)
    (h : s.step phases id (.execute E plan) = some s') (hp : s.table.get id = some p)
    (hs : p.state ≠ .done) (hp' : s'.table.get id = some p') (hdone : p'.state = .done) :
    CompletedEmpty phases s s' id (.execute E plan) p' := by
  obtain ⟨q, hq, ha⟩ := ho.root
  obtain rfl := Option.some.inj (hp.symm.trans hq)
  have hr : p.state = .running := by
    by_contra hr
    simp [Pipeline.step, hp, hr] at h
  have ha := ha (by rw [hr]; decide)
  obtain ⟨-, ⟨rfl, -⟩ | ⟨T, q', calls, hex, rfl, hq', -⟩⟩ := execute_cases ha hp hr h
  · obtain rfl := Option.some.inj (hp.symm.trans hp')
    exact absurd hdone hs
  · obtain ⟨hres, hwaves⟩ := executeRoot_result hp hex hp' hdone
    refine ⟨⟨E, plan, rfl⟩, fun c hc => ?_, rfl, hres⟩
    have hplans : (s.commit T calls).plans = s.plans ++ calls := rfl
    rw [hplans, ha.running hr, List.nil_append] at hc
    exact hwaves c hc

/-- Calls that have planned no children do not come last. -/
theorem no_calls {plans calls l : List PlanCall} {c : PlanCall} (h : plans ++ calls = l ++ [c])
    (hall : ∀ d ∈ calls, d.wave = []) (hc : c.wave ≠ []) : calls = [] := by
  rcases List.eq_nil_or_concat calls with hnil | ⟨pre, d, rfl⟩
  · exact hnil
  · rw [List.concat_eq_append, ← List.append_assoc] at h
    obtain rfl := List.singleton_inj.1 (List.append_inj' h rfl).2
    exact absurd (hall d (by simp)) hc

theorem completed_by_check {E : Env} {plan : PlanPhase}
    {aggregate : List ChildResult → Except Exc (Option Json)} {onFailure : HookRun}
    (ho : s.Ok phases id) (h : s.step phases id (.check E plan aggregate onFailure) = some s')
    (hp : s.table.get id = some p) (hs : p.state ≠ .done) (hp' : s'.table.get id = some p')
    (hdone : p'.state = .done) :
    CompletedByCheck phases s s' id (.check E plan aggregate onFailure) p' := by
  obtain ⟨q, hq, ha⟩ := ho.root
  obtain rfl := Option.some.inj (hp.symm.trans hq)
  have hsame : s' ≠ s := by
    rintro rfl
    obtain rfl := Option.some.inj (hp.symm.trans hp')
    exact hs hdone
  have hw : p.state = .waiting := by
    by_contra hw
    exact hsame (check_idle hp hw h)
  have ha := ha (by rw [hw]; decide)
  have hfailed : ∀ {T q'}, s' = { s with table := T } → T.get id = some q' →
      q'.state = .failed → False := by
    rintro T q' rfl hq' hf
    obtain rfl := Option.some.inj (hq'.symm.trans hp')
    rw [hdone] at hf
    cases hf
  have hfin : ∀ c ∈ s.table.children id, Finished c := by
    rcases check_cases ho ha hp hw h with hsame' | ⟨T, q', hs', -, hq', hf⟩ | ⟨hfin, -⟩
    · exact absurd hsame' hsame
    · exact (hfailed hs' hq' hf).elim
    · exact hfin
  obtain ⟨hph, hlast, -⟩ := ha.place ho hw
  have hne := ha.children_ne_nil ho hw
  have hplanned : ∃ c ∈ s.plans, c.wave ≠ [] := by
    by_contra hall
    push Not at hall
    rw [lastWave_empty hall] at hlast
    cases hlast
  obtain ⟨-, rfl⟩ := Table.get_eq_some_iff.1 hp
  cases hook : onAllChildrenDone E phases plan aggregate p s.table with
  | error exc =>
    rcases check_raises hp hw hne hfin hook h with hsame' | ⟨-, T, q', hs', -, hq', hf⟩
    · exact absurd hsame' hsame
    · exact (hfailed hs' hq' hf).elim
  | ok r =>
    obtain ⟨T₁, v, calls⟩ := r
    obtain ⟨T, q', hcomplete, hq', hd⟩ := completeParentWith_driven
      ⟨fun _ => {}, fun _ => onFailure⟩ hp hw ha.parent (by rw [hph]; exact ho.bound) hfin hook
    have hcheck := (checkWaitingParentWith_finished hp hw hne hfin).trans hcomplete
    have hs' : s.commit T calls = s' := by
      simp only [step, hcheck] at h
      exact Option.some.inj h
    subst hs'
    obtain rfl := Option.some.inj (hq'.symm.trans hp')
    -- the same check, with the calls of `aggregate_result`
    rw [check_recorded] at hcheck
    obtain ⟨⟨T₂, cs, o⟩, hrec, heq⟩ := map_ok hcheck
    obtain ⟨rfl, hrest⟩ := Prod.mk.inj heq
    obtain ⟨⟨calls', aggs⟩, rfl, rfl⟩ := Option.map_eq_some_iff.1 (Prod.mk.inj hrest).2
    have hrec' := (checkWaitingParentWith_finished hp hw hne hfin).symm.trans hrec
    have hstill : ∀ T₁ v g, onAllChildrenDoneRecorded E phases plan aggregate p s.table =
        .ok (T₁, v, g) → ∀ t, T₁.get p.id = some t → t.state ≠ .done :=
      fun _ _ _ hg => (recorded_cases hp hw hg).1
    obtain ⟨T₃, hg, hquiet⟩ := completeParentWith_done hrec' hp' hdone hstill
    obtain ⟨rfl, hagg⟩ := (recorded_cases hp hw hg).2 hquiet
    obtain ⟨c, hc, hwave⟩ := hplanned
    refine ⟨E, plan, aggregate, onFailure, resultsOf s.table (waveIds p), rfl,
      ⟨c, List.mem_append_left _ hc, hwave⟩, ?_, hagg, fun l c hl hc => ?_⟩
    · simp only [aggregated, hrec]
    · -- the calls of this step have planned no children
      rcases hd.outcome with ⟨_, _, _, _, _, _, hwait, _⟩ | ⟨hall, -, hadv, -⟩
      · rw [hdone] at hwait
        cases hwait
      · have hl : s.plans ++ calls' = l ++ [c] := hl
        rw [no_calls hl hall hc, List.append_nil] at hl
        rw [hl, lastWave_concat hc] at hlast
        rw [← Option.some.inj hlast]
        refine ((Keeps.of_get hadv.old).results ?_).symm
        exact ha.resolved hfin (by rw [hl, lastWave_concat hc])

theorem completed_cases (ho : s.Ok phases id) (hok : s.admits id ev)
    (h : s.step phases id ev = some s') (hp : s.table.get id = some p) (hs : p.state ≠ .done)
    (hp' : s'.table.get id = some p') (hdone : p'.state = .done) :
    CompletedEmpty phases s s' id ev p' ∨ CompletedByCheck phases s s' id ev p' := by
  cases ev with
  | execute E plan => exact .inl (completed_by_execute ho h hp hs hp' hdone)
  | check E plan aggregate onFailure => exact .inr (completed_by_check ho h hp hs hp' hdone)
  | store vals =>
    obtain rfl := Option.some.inj h
    change (s.table.update id (storePhaseData vals)).get id = some p' at hp'
    rw [Table.get_update_self hp] at hp'
    obtain rfl := Option.some.inj hp'
    exact absurd hdone hs
  | elsewhere T =>
    obtain rfl := Option.some.inj h
    obtain ⟨⟨q, hq, q', hq', rfl, hid, hstate, -⟩, -⟩ := hok
    obtain rfl := Option.some.inj (hp.symm.trans (Table.mem_iff_get.1 hq))
    obtain rfl := Option.some.inj (hp'.symm.trans (Table.get_eq_some_iff.2 ⟨hq', hid⟩))
    rw [hdone] at hstate
    rcases hstate with hstate | hstate
    · exact absurd hstate.symm hs
    · exact absurd (by decide) hstate

end Pipeline

/-- **The result of a pipeline.** When the root becomes done, every phase has been planned. Either
no phase has planned children, and the root is completed by `execute()` without a result; or one has
and a check completes it, with the value of the one call of `aggregate_result`, whose `last_results`
are those of the children of the last phase if that phase has planned any. -/
theorem pipeline_aggregated {phases : List String} {id : TaskId} {s₀ s s' : Pipeline}
    {es : List PipelineEv} {ev : PipelineEv} {p p' : Task} (h0 : s₀.Start id)
    (hp : Path (Pipeline.step phases id) (Pipeline.admits id) s₀ es s) (hok : s.admits id ev)
    (h : s.step phases id ev = some s') (hroot : s.table.get id = some p) (hs : p.state ≠ .done)
    (hroot' : s'.table.get id = some p') (hdone : p'.state = .done) :
    s'.plans.map PlanCall.index = List.range phases.length ∧
      (Pipeline.CompletedEmpty phases s s' id ev p' ∨
        Pipeline.CompletedByCheck phases s s' id ev p') := by
  have ho : s.Ok phases id := .path h0 hp
  have ho' := ho.step hok h
  obtain ⟨q, hq, ha⟩ := ho'.root
  obtain rfl := Option.some.inj (hroot'.symm.trans hq)
  have hlen := ((ha (by rw [hdone]; decide)).done hdone).1
  exact ⟨hlen ▸ ho'.indices, Pipeline.completed_cases ho hok h hroot hs hroot' hdone⟩

/-- The upload is done, and the pipeline sums up how many uploads there were. -/
theorem exportRun_aggregated : ∃ s s' p', Path (Pipeline.step exportPhases 1) (Pipeline.admits 1)
      ⟨exportRoot, [], []⟩ (exportRun ++ [.elsewhere (uploadDone (reached (Pipeline.step
        exportPhases 1) (Pipeline.admits 1) ⟨exportRoot, [], []⟩ exportRun).table)]) s ∧
    s.step exportPhases 1 (.check pipelineEnv exportPlan
      (fun last => .ok (some (.int last.length))) {}) = some s' ∧
    s'.table.get 1 = some p' ∧ p'.taskResult = some (.int 1) ∧
    (Pipeline.CompletedEmpty exportPhases s s' 1 (.check pipelineEnv exportPlan
        (fun last => .ok (some (.int last.length))) {}) p' ∨
      Pipeline.CompletedByCheck exportPhases s s' 1 (.check pipelineEnv exportPlan
        (fun last => .ok (some (.int last.length))) {}) p') := by
  have h0 : Pipeline.Start 1 ⟨exportRoot, [], []⟩ := ⟨⟨_, rfl, rfl, rfl⟩, by decide, rfl⟩
  have hp : Path (Pipeline.step exportPhases 1) (Pipeline.admits 1) ⟨exportRoot, [], []⟩
      (exportRun ++ [.elsewhere (uploadDone (reached (Pipeline.step exportPhases 1)
        (Pipeline.admits 1) ⟨exportRoot, [], []⟩ exportRun).table)]) (reached _ _ _ _) :=
    path_reached (by decide +kernel)
  have hok : ∀ s : Pipeline, s.admits 1 (.check pipelineEnv exportPlan
    (fun last => .ok (some (.int last.length))) {}) := fun _ => trivial
  refine ⟨_, _, _, hp, rfl, rfl, by decide +kernel, ?_⟩
  exact (pipeline_aggregated h0 hp (hok _) rfl rfl (by decide +kernel) rfl (by decide +kernel)).2

/-- A pipeline that plans no children is completed without a call of `aggregate_result`. -/
theorem empty_not_aggregated : ¬ ∀ phases id s₀ es s ev s' p p', Pipeline.Start id s₀ →
    Path (Pipeline.step phases id) (Pipeline.admits id) s₀ es s → s.admits id ev →
    s.step phases id ev = some s' → s.table.get id = some p → p.state ≠ .done →
    s'.table.get id = some p' → p'.state = .done →
    ∃ last, s.aggregated phases id ev = [⟨last, p'.taskResult⟩] := by
  intro h
  have h0 : Pipeline.Start 1 ⟨exportRoot, [], []⟩ := ⟨⟨_, rfl, rfl, rfl⟩, by decide, rfl⟩
  obtain ⟨last, hlast⟩ := h exportPhases 1 _ [] _ (.execute pipelineEnv fun _ _ _ => {}) _ _ _ h0
    (.nil _) trivial rfl rfl (by decide) rfl (by decide)
  cases hlast

end GenericTaskQueue
