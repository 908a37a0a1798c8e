import GenericBackground.TaskQueue.FailureHooks

/-!
# How waiting parents are completed

The steps of `_check_waiting_parent` that move a parent from `waiting` to `done`, in the runs of the
queue. A parent with children is completed after its `on_all_children_done` has returned, with the
value that it returned, unless the hook has completed the parent itself. A parent without children
is completed at once: no hook is called, and there is no result.
-/

namespace GenericTaskQueue

open Traced Lts

variable {σ : Type}

/-- How the parent `p` was completed, as `p'`, by the commit `c`. -/
inductive Completion (c : Commit σ) (p p' : Task) : Prop
  | childless (hnil : c.snapshot.tasks.children p.id = []) (hes : c.events = [.done p.id none])
      (hr : p'.taskResult = none)
  | returned {v : Option Json} (hne : c.snapshot.tasks.children p.id ≠ [])
      (hes : c.events = [.onAllChildrenDone p.id (.ok v), .done p.id v]) (hr : p'.taskResult = v)
  | byHook {v : Option Json} {D : Database σ} (hne : c.snapshot.tasks.children p.id ≠ [])
      (hes : c.events = [.onAllChildrenDone p.id (.ok v)])
      (hh : (c.hooks p.typeCode).onAllChildrenDone p c.snapshot = .ok (D, v))
      (hp' : D.tasks.get p.id = some p')

namespace Database

variable {D D' : Database σ} {E : Env} {hooks : TypeCode → TypeHooks σ} {p p' : Task}

theorem failTask_state {cause : FailureCause} {error : String} {t : Task}
    (h : (D.failTask E hooks cause error t).result = .ok D') (hp' : D'.tasks.get t.id = some p') :
    p'.state = .failed := by
  obtain ⟨D₁, -, h2⟩ := Run.andThen_ok h
  obtain ⟨u, u', hu, hf, rfl, -⟩ := modify_ok h2
  obtain ⟨-, rfl⟩ := checked_ok hf
  rw [Table.get_update_self hu] at hp'
  obtain rfl := Option.some.inj hp'
  rfl

theorem actionDone_result {v : Option Json} {id : TaskId}
    (h : (D.actionDone E v id).result = .ok D') (hp' : D'.tasks.get id = some p') :
    (D.actionDone E v id).events = [.done id v] ∧ p'.taskResult = v := by
  obtain ⟨u, u', hu, hf, rfl, hes⟩ := modify_ok h
  obtain ⟨-, rfl⟩ := checked_ok hf
  rw [Table.get_update_self hu] at hp'
  obtain rfl := Option.some.inj hp'
  exact ⟨hes, rfl⟩

theorem afterHook_done {v : Option Json} {id : TaskId}
    (h : (D.afterHook E v id).result = .ok D') (hp' : D'.tasks.get id = some p') :
    ((D.afterHook E v id).events = [.done id v] ∧ p'.taskResult = v) ∨
      ((D.afterHook E v id).events = [] ∧ D' = D) := by
  unfold afterHook at h ⊢
  split_ifs at h ⊢
  · exact .inr ⟨rfl, (Except.ok.inj h).symm⟩
  · exact .inr ⟨rfl, (Except.ok.inj h).symm⟩
  · exact .inl (actionDone_result h hp')

theorem checkWaitingParent_done (hp : D.tasks.get p.id = some p) (hw : p.state = .waiting)
    (hreg : E.registered p.typeCode = true)
    (h : (D.checkWaitingParent E hooks p.id).result = .ok D')
    (hp' : D'.tasks.get p.id = some p') (hd : p'.state = .done) :
    (D.tasks.children p.id = [] ∧ (D.checkWaitingParent E hooks p.id).events = [.done p.id none] ∧
      p'.taskResult = none) ∨
    D.tasks.children p.id ≠ [] ∧ ∃ v D₁,
      (hooks p.typeCode).onAllChildrenDone p D = .ok (D₁, v) ∧
      (((D.checkWaitingParent E hooks p.id).events =
          [.onAllChildrenDone p.id (.ok v), .done p.id v] ∧ p'.taskResult = v) ∨
        ((D.checkWaitingParent E hooks p.id).events = [.onAllChildrenDone p.id (.ok v)] ∧
          D₁.tasks.get p.id = some p')) := by
  -- a parent that is left as it was is not completed
  have hsame : D' = D → False := by
    rintro rfl
    obtain rfl := Option.some.inj (hp.symm.trans hp')
    rw [hw] at hd
    cases hd
  have hfail : ∀ {cause : FailureCause} {error : String},
      (D.failTask E hooks cause error p).result = .ok D' → False := by
    intro cause error hf
    rw [failTask_state hf hp'] at hd
    cases hd
  unfold checkWaitingParent at h ⊢
  simp only [hp, hw, ne_eq, not_true_eq_false, if_false] at h ⊢
  split_ifs at h ⊢ with hnil ha hn hf
  · exact .inl ⟨hnil, actionDone_result h hp'⟩
  · exact (hsame (Except.ok.inj h).symm).elim
  · exact (hfail h).elim
  · exact (hsame (Except.ok.inj h).symm).elim
  refine .inr ⟨hnil, ?_⟩
  unfold completeParent at h ⊢
  rw [if_pos hreg] at h ⊢
  rcases hh : (hooks p.typeCode).onAllChildrenDone p D with exc | ⟨D₁, v⟩
  · simp only [hh] at h
    cases exc with
    | transientError => cases h
    | retryTask after => exact (hsame (Except.ok.inj h).symm).elim
    | other text => exact (hfail h).elim
  · simp only [hh] at h ⊢
    refine ⟨v, D₁, rfl, ?_⟩
    rcases afterHook_done h hp' with ⟨hes, hr⟩ | ⟨hes, rfl⟩
    · exact .inl ⟨by rw [Run.after_events, hes]; rfl, hr⟩
    · exact .inr ⟨by rw [Run.after_events, hes]; rfl, hp'⟩

end Database

/-- The check has locked the row of its parent, so no hook ticks it. -/
theorem ticked_checkWaitingParent {c : Commit σ} {id : TaskId}
    (hc : c.tx = .hooked (.checkWaitingParent id)) : id ∉ c.ticked.map Prod.fst := by
  intro hm
  obtain ⟨p, hp, rfl⟩ := List.mem_map.1 hm
  obtain ⟨e, -, he⟩ := List.mem_flatMap.1 hp
  cases e with
  | onFailure id cause ended =>
    simp only [Commit.ticksOf, hc, HookTx.holds] at he
    exact absurd List.mem_cons_self (of_decide_eq_true (List.mem_filter.1 he).2)
  | _ => cases he

/-- **Completion.** Along every run, a commit of `_check_waiting_parent` that moves its parent from
`waiting` to `done` completes it after its hook has returned, with what the hook returned or left;
or the parent has no children, and is completed without a hook and without a result. -/
theorem waiting_parent_completion {s s' s₁ s₂ : Rows} {es : List (Commit σ)} {c : Commit σ}
    {p p' : Task} (hp : Path commit anyStep s es s') (ht : Takes commit s es s₁ c s₂)
    (hc : c.tx = .hooked (.checkWaitingParent p.id)) (hreg : c.env.registered p.typeCode = true)
    (h1 : s₁ p.id = some p) (hw : p.state = .waiting) (h2 : s₂ p.id = some p')
    (hd : p'.state = .done) : Completion c p p' := by
  obtain ⟨-, -, hs⟩ := hp.takes ht
  have htick : s₁.tick c.ticked p.id = s₁ p.id :=
    Rows.tick_of_not_mem (ticked_checkWaitingParent hc)
  have hne : s₂ p.id ≠ s₁.tick c.ticked p.id := by
    intro heq
    rw [htick, h1, h2] at heq
    obtain rfl := Option.some.inj heq
    rw [hw] at hd
    cases hd
  obtain ⟨W, hW, hm, hcur⟩ := commit_changed hs hne
  rw [htick, h1] at hcur
  simp only [Commit.writes, hc] at hW
  rcases hr : (HookTx.run (.checkWaitingParent p.id) c.env c.hooks c.snapshot).result with e | D'
  · simp only [hr] at hW
    cases hW
  simp only [hr] at hW
  obtain rfl := Option.some.inj hW
  obtain ⟨-, hp'⟩ := mem_writeSet hm
  have hev : c.events = (c.snapshot.checkWaitingParent c.env c.hooks p.id).events := by
    unfold Commit.events
    rw [hc]
    rfl
  rcases Database.checkWaitingParent_done hcur.symm hw hreg hr
      (hp'.symm.trans h2) hd with ⟨hnil, hes, hres⟩ | ⟨hne, v, D₁, hh, ⟨hes, hres⟩ | ⟨hes, hD⟩⟩
  · exact .childless hnil (hev.trans hes) hres
  · exact .returned hne (hev.trans hes) hres
  · exact .byHook hne (hev.trans hes) hh hD

/-- The check of the parent of a report, on a snapshot. -/
def reportCheck (D : Database (List String)) : Commit (List String) where
  tx := .hooked (.checkWaitingParent 1)
  snapshot := D
  env := reportEnv
  hooks _ := reportHooks

theorem reportCheck_completed : ∃ s₂ p',
    commit reportDb.tasks.get (reportCheck reportDb) = some s₂ ∧ s₂ 1 = some p' ∧
    Completion (reportCheck reportDb) reportTask p' := by
  have hs : commit reportDb.tasks.get (reportCheck reportDb) = some (_ : Rows) := rfl
  have hp : Path commit anyStep reportDb.tasks.get [reportCheck reportDb] _ :=
    .cons trivial hs (.nil _)
  exact ⟨_, _, hs, rfl, waiting_parent_completion hp ⟨[], [], rfl, .nil _, hs⟩ rfl (by decide) rfl
    rfl rfl rfl⟩

def emptyReport : Database (List String) where
  tasks := ⟨[reportTask], by simp⟩
  others := []

/-- It is done at once, without the result that its `on_all_children_done` would return. -/
theorem empty_report_unfinalised : ∃ s₂ p',
    commit emptyReport.tasks.get (reportCheck emptyReport) = some s₂ ∧
    emptyReport.tasks.get 1 = some reportTask ∧ reportTask.state = .waiting ∧
    s₂ 1 = some p' ∧ p'.state = .done ∧
    ¬ ∃ v, .onAllChildrenDone 1 (.ok v) ∈ (reportCheck emptyReport).events ∧
      p'.taskResult = v := by
  refine ⟨_, _, rfl, rfl, rfl, rfl, rfl, ?_⟩
  rintro ⟨v, hm, -⟩
  have hes : (reportCheck emptyReport).events = [.done 1 none] := rfl
  rw [hes] at hm
  cases List.mem_singleton.1 hm

end GenericTaskQueue
