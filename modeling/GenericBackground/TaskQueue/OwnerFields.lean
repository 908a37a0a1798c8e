import GenericBackground.TaskQueue.StateMachine

/-!
# The fields of ownership

`worker_id` and `runner_id` of a task: unset while it is pending, set while it is in flight. Crash
recovery relies on this, since it skips a check whose field is unset. Every statement keeps it on
its row (`RowAct.run_fields`), and a runner is on one task in flight only.
-/

namespace GenericTaskQueue

open RowStore Lts

variable {reg : Registry} {s s' : Sys} {t t' : Task} {o o' : Option Task}

structure OwnerFields (t : Task) : Prop where
  pending : t.state = .pending → t.workerId = none ∧ t.runnerId = none
  inFlight : t.state ∈ inFlightStates → t.workerId ≠ none ∧ t.runnerId ≠ none

theorem OwnerFields.of_pending (hs : t.state = .pending) (hw : t.workerId = none)
    (hr : t.runnerId = none) : OwnerFields t :=
  ⟨fun _ => ⟨hw, hr⟩, fun hf => absurd hf (by rw [hs]; decide)⟩

theorem OwnerFields.of_inFlight (hs : t.state ∈ inFlightStates) (hw : t.workerId ≠ none)
    (hr : t.runnerId ≠ none) : OwnerFields t :=
  ⟨fun hp => absurd hs (by rw [hp]; decide), fun _ => ⟨hw, hr⟩⟩

theorem OwnerFields.of_free (hp : t.state ≠ .pending) (hf : t.state ∉ inFlightStates) :
    OwnerFields t :=
  ⟨fun h => absurd h hp, fun h => absurd h hf⟩

theorem OwnerFields.same (h : OwnerFields t) (hs : t'.state = t.state)
    (hw : t'.workerId = t.workerId) (hr : t'.runnerId = t.runnerId) : OwnerFields t' := by
  refine ⟨fun hp => ?_, fun hf => ?_⟩ <;> rw [hw, hr]
  · exact h.pending (hs ▸ hp)
  · exact h.inFlight (hs ▸ hf)

theorem OwnerFields.onward (h : OwnerFields t) (hf : t.state ∈ inFlightStates)
    (hs : t'.state ∈ inFlightStates) (hw : t'.workerId = t.workerId)
    (hr : t'.runnerId = t.runnerId) : OwnerFields t' := by
  refine .of_inFlight hs ?_ ?_
  · rw [hw]; exact (h.inFlight hf).1
  · rw [hr]; exact (h.inFlight hf).2

theorem OwnerFields.create (v : TaskVals) : OwnerFields v.create := .of_pending rfl rfl rfl

theorem actionAutoRetry_fields {eta : Option ℕ} : OwnerFields (actionAutoRetry eta t) :=
  .of_pending rfl rfl rfl

theorem actionFail_fields {now : ℕ} {error : Option String} {data : Option Json}
    (h : actionFail now error data t = .ok t') : OwnerFields t' := by
  obtain ⟨-, rfl⟩ := checked_ok h
  exact .of_free nofun (by simp [inFlightStates])

theorem actionDone_fields {now : ℕ} {result : Option Json}
    (h : actionDone now result t = .ok t') : OwnerFields t' := by
  obtain ⟨-, rfl⟩ := checked_ok h
  exact .of_free nofun (by simp [inFlightStates])

theorem actionCancel_fields {now : ℕ} (h : actionCancel now t = .ok t') : OwnerFields t' := by
  obtain ⟨-, rfl⟩ := checked_ok h
  exact .of_free nofun (by simp [inFlightStates])

theorem UserAct.fields {u : UserAct} (h : u.onTask t = .ok o) (ht : OwnerFields t) :
    ∀ t', o = some t' → OwnerFields t' := by
  rintro t' rfl
  cases u with
  | create v => cases h
  | lookupUniqueKey key =>
    obtain rfl := Option.some.inj (Except.ok.inj h)
    exact ht
  | write v =>
    obtain rfl := Option.some.inj (Except.ok.inj h)
    exact ht.same rfl rfl rfl
  | storePhaseData vals =>
    obtain rfl := Option.some.inj (Except.ok.inj h)
    exact ht.same rfl rfl rfl
  | enterPhase phase childIds =>
    obtain rfl := Option.some.inj (Except.ok.inj h)
    exact ht.same rfl rfl rfl
  | actionCancel now =>
    have hu := ok_of_map_some h
    exact actionCancel_fields hu
  | actionRetry eta =>
    have hu := ok_of_map_some h
    obtain ⟨-, rfl⟩ := actionRetry_ok hu
    exact .of_pending rfl rfl rfl
  | unlink => cases h

theorem handleFailure_fields {now : ℕ} {exc : Exc} {tb : String} {read : Task}
    (h : handleFailure reg now exc tb read t = .ok t') : OwnerFields t' := by
  rcases handleFailure_cases h with ⟨-, _, rfl⟩ | ⟨-, h⟩
  · exact actionAutoRetry_fields
  · exact actionFail_fields h

theorem handleLostExecution_fields {now : ℕ} {error : String}
    (h : handleLostExecution reg now error t = .ok t') : OwnerFields t' := by
  rcases handleLostExecution_cases h with ⟨-, h⟩ | ⟨-, -, rfl⟩ | ⟨-, -, h⟩
  · obtain ⟨-, rfl⟩ := checked_ok h
    exact .of_pending rfl rfl rfl
  · exact actionAutoRetry_fields
  · exact actionFail_fields h

theorem RowAct.run_none_fields {a : RowAct} (h : a.run reg none = .ok (some t)) :
    OwnerFields t := by
  simp only [RowAct.run] at h
  split at h
  · next v =>
    obtain rfl := Option.some.inj (Except.ok.inj h)
    exact .create v
  · cases h

theorem RowAct.run_fields {a : RowAct} (hs : a.selects o = true) (h : a.run reg o = .ok o')
    (ho : ∀ t, o = some t → OwnerFields t) : ∀ t', o' = some t' → OwnerFields t' := by
  rintro t' rfl
  rcases o with _ | t
  · exact run_none_fields h
  change a.onTask reg t = .ok (some t') at h
  have ht := ho t rfl
  cases a with
  | user u => exact UserAct.fields h ht t' rfl
  | assign worker uuid =>
    refine of_map_some (fun u hu => ?_) h
    obtain ⟨-, rfl⟩ := claimRow_eq hu
    exact .of_inFlight List.mem_cons_self nofun nofun
  | start now =>
    obtain ⟨hst, rfl⟩ := checked_some h
    have hst := of_allowed_running hst
    exact ht.onward (by rw [hst]; decide) (show .running ∈ inFlightStates by decide) rfl rfl
  | stuck =>
    obtain ⟨hst, rfl⟩ := checked_some h
    have hst := of_allowed_stuck hst
    exact ht.onward (by rw [hst]; decide) (show .stuck ∈ inFlightStates by decide) rfl rfl
  | waitChildren =>
    obtain ⟨-, rfl⟩ := checked_some h
    exact .of_free nofun (show .waiting ∉ inFlightStates by decide)
  | progress value =>
    obtain rfl := Option.some.inj (Except.ok.inj h)
    exact ht.same rfl rfl rfl
  | done runner now result => exact of_map_some (fun u hu => actionDone_fields hu) h
  | failure runner now exc traceback read =>
    exact of_map_some (fun u hu => handleFailure_fields hu) h
  | lostExecution runner worker now error =>
    exact of_map_some (fun u hu => handleLostExecution_fields hu) h
  | autoRetry now =>
    obtain rfl := Option.some.inj (Except.ok.inj h)
    exact actionAutoRetry_fields
  | unown =>
    -- only waiting parents are let go of
    obtain rfl := Option.some.inj (Except.ok.inj h)
    have hw : t.state = .waiting := of_decide_eq_true hs
    exact .of_free (by rw [hw]; decide) (by rw [hw]; decide)
  | lockWaiting =>
    obtain rfl := Option.some.inj (Except.ok.inj h)
    exact ht
  | move now m =>
    cases m with
    | done result => exact of_map_some (fun u hu => actionDone_fields hu) h
    | fail error => exact of_map_some (fun u hu => actionFail_fields hu) h
    | cancel => exact of_map_some (fun u hu => actionCancel_fields hu) h

def FieldsOk (s : Sys) : Prop := ∀ k t, s.db.cur.row k = some t → OwnerFields t

theorem FieldsOk.step {ev : Ev} (hi : Inv reg s) (hf : FieldsOk s)
    (h : s.step reg ev = some s') : FieldsOk s' := by
  intro k t ht
  rcases Sys.row_run hi h k with hsame | ⟨i, x, b, -, -, -, hrun⟩
  · rw [hsame] at ht
    exact hf k t ht
  · exact runActs_rel
      (R := fun o o' => (∀ t, o = some t → OwnerFields t) → ∀ t, o' = some t → OwnerFields t)
      (fun _ h => h) (fun h₁ h₂ h => h₂ (h₁ h)) (fun _ _ _ _ hs hr => RowAct.run_fields hs hr)
      hrun (hf k) t ht

theorem FieldsOk.path {ok : Sys → Ev → Prop} {es : List Ev} (h0 : Start s) (hf : FieldsOk s)
    (hp : Path (Sys.step reg) ok s es s') : FieldsOk s' :=
  hp.inv_of (fun _ _ _ hi _ h => hi.step h) (fun _ _ _ hi hf _ h => hf.step hi h) h0.inv hf

/-- **Fields of ownership.** In every state that is reached from freshly created tasks, a pending
task has neither worker nor runner, a task in flight has both, and no two tasks in flight have the
same runner. -/
theorem owner_fields {es : List Ev} (h0 : Start s)
    (hnew : ∀ k t, s.db.cur.row k = some t → ∃ v : TaskVals, t = v.create)
    (hp : Path (Sys.step reg) anyStep s es s') :
    (∀ k t, s'.db.cur.row k = some t → OwnerFields t) ∧
    ∀ k k' t t', s'.db.cur.row k = some t → s'.db.cur.row k' = some t' →
      t.state ∈ inFlightStates → t'.state ∈ inFlightStates → t.runnerId = t'.runnerId →
        k = k' := by
  have hf0 : FieldsOk s := by
    intro k t ht
    obtain ⟨v, rfl⟩ := hnew k t ht
    exact .create v
  have hf := FieldsOk.path h0 hf0 hp
  refine ⟨hf, fun k k' t t' ht ht' hs hs' heq => ?_⟩
  obtain ⟨r, hr⟩ := Option.ne_none_iff_exists'.1 ((hf k t ht).inFlight hs).2
  exact (h0.inv.path hp).held_unique ⟨t, ht, hr, hs⟩ ⟨t', ht', heq ▸ hr, hs'⟩

/-- Created, claimed, started, and recovered when its worker is lost. -/
def lostOnce : List Ev := [
  .db (.begin (.claimTask (exportClaim 1) id fun _ => 7)), .db (.lock 0), .db (.commit 0),
  .db (.begin (.actionStart 7 1 101)), .db (.lock 1), .db (.commit 1),
  .db (.begin (.recoverLostExecutions [] [1] 200 "lost" [])), .db (.lock 2), .db (.commit 2)]

theorem lostOnce_fields : ∃ s', Path (Sys.step []) anyStep (Sys.init oneTask) lostOnce s' ∧
    (s'.db.cur.row 1).map Task.state = some .pending ∧
    ∀ k t, s'.db.cur.row k = some t → OwnerFields t := by
  have hp : Path (Sys.step []) anyStep (Sys.init oneTask) lostOnce _ :=
    path_reached (by decide +kernel)
  refine ⟨_, hp, rfl, (owner_fields (Start.init (by decide)) (fun k t ht => ?_) hp).1⟩
  obtain ⟨hm, -⟩ := Table.get_eq_some_iff.1 ht
  obtain rfl := List.mem_singleton.1 hm
  exact ⟨exportVals, rfl⟩

end GenericTaskQueue
