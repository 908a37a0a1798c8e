import GenericBackground.TaskQueue.Outcome
import GenericBackground.TaskQueue.StateMachine

/-!
# One live thread for a task

A claim takes pending tasks, so a task gets a second thread only after it has gone back to
`pending`. Its own thread puts it back as it ends; crash recovery puts back whatever it takes to be
lost. If recovery takes only tasks of workers whose threads have all ended (`Sys.recoversEnded`),
then the task of a live thread is in flight under that thread, or cancelled, and no other live
thread has it (`Live`).
-/

namespace GenericTaskQueue

open RowStore Lts

variable {reg : Registry} {s s' : Sys} {ev : Ev} {r : RunnerId} {k : TaskId}

/-- A recovery begins only with tasks of workers whose threads have all ended. -/
def Sys.recoversEnded (s : Sys) : Ev → Bool
  | .db (.begin (.recoverLostExecutions _ ids _ _ _)) => ids.all fun k =>
      (s.db.cur.row k).all fun t => s.threads.all fun th =>
        t.workerId = some th.worker → th.phase = .ended
  | _ => true

/-! ## Threads that have ended -/

theorem ended_after (hi : Inv reg s) (hb : Busy s) (h : s.step reg ev = some s') {th : Thread}
    (hm : th ∈ s.threads) (he : th.phase = .ended) : (th.after s ev).phase = .ended := by
  rcases hi.phase_after h hm with heq | ⟨a, -, hba, hready⟩ | ⟨j, x, p, -, hx, ho, hbx⟩ | ⟨hid, -⟩
  · rw [heq, he]
  · have := ready_idle hready hba
    rw [he] at this
    cases this
  · -- the thread of an open transaction has not ended
    obtain ⟨th₂, hm₂, hr₂, -, hph⟩ := hb.phase j x _ _ p hx ho hbx
    obtain rfl := hi.same_thread hm₂ hm hr₂
    have := busy_idle hbx
    rw [← hph, he] at this
    generalize x.act = a at hbx
    cases a <;> simp [Tx.busy, ← hph, he] at hbx
  · rw [he] at hid
    cases hid

theorem live_before (hi : Inv reg s) (hb : Busy s) (h : s.step reg ev = some s') {th : Thread}
    (hm : th ∈ s.threads) (hl : (th.after s ev).phase ≠ .ended) : th.phase ≠ .ended :=
  fun he => hl (ended_after hi hb h hm he)

theorem Sys.ended_step (hi : Inv reg s) (hb : Busy s) (h : s.step reg ev = some s')
    (he : s.ended r) : s'.ended r := by
  obtain ⟨th, hm, hr, hph⟩ := he
  exact ⟨_, Sys.step_keeps_thread h hm, (th.after_same s ev).1.trans hr,
    ended_after hi hb h hm hph⟩

theorem Inv.not_ended (hi : Inv reg s) {th : Thread} (hm : th ∈ s.threads)
    (hl : th.phase ≠ .ended) : ¬ s.ended th.runner := by
  rintro ⟨th', hm', hr, hph⟩
  rw [hi.same_thread hm' hm hr] at hph
  exact hl hph

theorem resolving_after {th : Thread} (h : (th.after s ev).tracked = .resolving) :
    th.tracked = .resolving ∨ th.phase = .ended := by
  cases th.after_marks s ev with
  | same _ htrack => exact .inl (htrack ▸ h)
  | timedOut _ _ _ _ _ _ _ htrack => exact .inl (htrack ▸ h)
  | recovering _ htrack => rw [htrack] at h; cases h
  | removed _ _ _ _ _ _ _ _ htrack => rw [htrack] at h; cases h
  | finalize _ _ hended => exact .inr hended

theorem timedOut_stays {th : Thread} (h : th.timedOut = true) :
    (th.after s ev).timedOut = true := by
  cases th.after_marks s ev with
  | same htime => exact htime.trans h
  | timedOut _ _ _ _ _ _ htime => exact htime
  | recovering htime => exact htime.trans h
  | removed _ _ _ _ _ _ _ htime => exact htime.trans h
  | finalize _ _ _ htime => exact htime.trans h

/-! ## What a commit makes of a row -/

/-- A row is left as it is, claimed, or written by statements none of which is a claim's. -/
theorem Sys.row_plain (hi : Inv reg s) (h : s.step reg ev = some s') (k : TaskId) :
    s'.db.cur.row k = s.db.cur.row k ∨ (∃ r, Claimed s s' ev k r) ∨
      ∃ i x b, ev = .db (.commit i) ∧ s.db.txns i = some x ∧
        x.snap.row k = s.db.cur.row k ∧ k ∈ x.locked ∧
        (∀ c rank uuid, x.act ≠ .claimTask c rank uuid) ∧
        runActs reg (x.act.acts reg x.snap x.locked k) (false, s.db.cur.row k) =
          .ok (b, s'.db.cur.row k) := by
  rcases Sys.step_db h with ⟨e, rfl, -, hs⟩ | ⟨-, hdb⟩
  · rcases hs.row_change hi.wf k with hsame | ⟨i, x, o, rfl, hx, hk, hrow, hwr, ho⟩
    · exact .inl hsame
    · by_cases hc : ∃ c rank uuid, x.act = .claimTask c rank uuid
      · obtain ⟨c, rank, uuid, hact⟩ := hc
        rw [hact] at hwr
        obtain ⟨t, ht, hp, rfl⟩ := write_claim hwr
        exact .inr (.inl
          ⟨uuid k, i, x, c, rank, uuid, rfl, hx, hact, hk, rfl, t, hrow ▸ ht, hp, ho⟩)
      · obtain ⟨b, hrun⟩ := commit_row hi.wf hs hx hk
        exact .inr (.inr ⟨i, x, b, rfl, hx, hrow, hk,
          fun c rank uuid heq => hc ⟨c, rank, uuid, heq⟩, hrun⟩)
  · rw [hdb]
    exact .inl rfl

/-- A claim that commits has assigned each row it has locked, and the row was pending. -/
theorem spawned_claimed (hi : Inv reg s) {i : ℕ} (h : s.step reg (.db (.commit i)) = some s')
    {x : Txn Tx TaskId Task} (hx : s.db.txns i = some x) {th : Thread} (hm : th ∈ spawned x) :
    ∃ t, s.db.cur.row th.task = some t ∧ t.state = .pending ∧
      s'.db.cur.row th.task = some (t.assigned th.worker th.runner) := by
  obtain ⟨c, rank, uuid, hact, hk, hth⟩ := mem_spawned hm
  obtain ⟨y, hy, -, hstep⟩ := Sys.step_commit h
  obtain rfl := Option.some.inj (hx.symm.trans hy)
  obtain ⟨t, ht, hid, hsel⟩ := claim_locked (hi.wf.txn i x hx) (hi.snapIds i x hx) hact hk
  have hrow := (hi.wf.txn i x hx).locked_row hk
  have hpend := (claimable_iff.1 (claimSelect_pending hsel).2).1
  obtain ⟨b, hrun⟩ := commit_row hi.wf hstep hx hk
  have hassign : RowAct.assign c.worker (uuid th.task) ∈
      x.act.acts reg x.snap x.locked th.task := by
    rw [hact]
    exact mem_acts.2 (List.mem_map.2 ⟨t, hsel, by rw [hid]⟩)
  have hall : ∀ act ∈ x.act.acts reg x.snap x.locked th.task,
      act = .assign c.worker (uuid th.task) := by
    intro act hm
    rw [hact] at hm
    obtain ⟨u, -, hu⟩ := List.mem_map.1 (mem_acts.1 hm)
    obtain ⟨hid, rfl⟩ := Prod.mk.inj hu
    rw [hid]
  rw [← hrow, ht] at hrun
  refine ⟨t, hrow ▸ ht, hpend, ?_⟩
  have hrunner : th.runner = uuid th.task := by rw [hth]
  have hworker : th.worker = c.worker := by rw [hth]
  rw [hrunner, hworker]
  generalize x.act.acts reg x.snap x.locked th.task = acts at hassign hall hrun
  rcases acts with _ | ⟨a, acts⟩
  · exact absurd hassign List.not_mem_nil
  · obtain rfl := hall a List.mem_cons_self
    obtain ⟨q, hq, hrest⟩ := runActs_cons hrun
    obtain ⟨u, hu, -, rfl⟩ := (assign_exec hq).resolve_left fun h => by cases h.1
    obtain rfl := Option.some.inj hu
    rcases acts with _ | ⟨a', acts⟩
    · exact ((Prod.mk.inj (Except.ok.inj hrest)).2).symm
    · -- an assigned task is not assigned again
      obtain rfl := hall a' (List.mem_cons_of_mem _ List.mem_cons_self)
      obtain ⟨q, hq, -⟩ := runActs_cons hrest
      rcases assign_exec hq with ⟨hnone, -⟩ | ⟨v, hv, hp, -⟩
      · cases hnone
      · obtain rfl := Option.some.inj hv
        cases hp

theorem spawned_ver (hi : Inv reg s) {i : ℕ} (h : s.step reg (.db (.commit i)) = some s')
    {x : Txn Tx TaskId Task} (hx : s.db.txns i = some x) {th : Thread} (hm : th ∈ spawned x) :
    s.db.cur.ver th.task < s'.db.cur.ver th.task := by
  obtain ⟨t, ht, hp, hrow⟩ := spawned_claimed hi h hx hm
  refine Nat.lt_of_le_of_ne (Sys.ver_le h _) fun hv => ?_
  rw [Sys.row_of_ver h hv.symm, ht] at hrow
  have hst := congrArg Task.state (Option.some.inj hrow)
  rw [hp] at hst
  cases hst

theorem RowAct.run_worker {a : RowAct} {t t' : Task} (ha : a.plain k = true)
    (hs : a.selects (some t) = true) (h : a.run reg (some t) = .ok (some t'))
    (hf : t'.state ∈ inFlightStates) : t'.workerId = t.workerId := by
  change a.onTask reg t = .ok (some t') at h
  have landed : t'.state ∉ inFlightStates → t'.workerId = t.workerId := fun h => absurd hf h
  cases a with
  | user u =>
    cases u with
    | create v => cases h
    | lookupUniqueKey key => obtain rfl := Option.some.inj (Except.ok.inj h); rfl
    | write v => obtain rfl := Option.some.inj (Except.ok.inj h); rfl
    | storePhaseData vals => obtain rfl := Option.some.inj (Except.ok.inj h); rfl
    | enterPhase phase childIds => obtain rfl := Option.some.inj (Except.ok.inj h); rfl
    | actionCancel now => rw [(checked_some h).2]
    | actionRetry eta =>
      have hv := ok_of_map_some h
      obtain ⟨-, rfl⟩ := actionRetry_ok hv
      exact landed (by simp [inFlightStates])
    | unlink => cases h
  | assign worker uuid => cases ha
  | start now => rw [(checked_some h).2]
  | stuck => rw [(checked_some h).2]
  | waitChildren => rw [(checked_some h).2]
  | progress value => obtain rfl := Option.some.inj (Except.ok.inj h); rfl
  | done runner now result => rw [(checked_some h).2]
  | failure runner now exc traceback read =>
    have hv := ok_of_map_some h
    exact landed (handleFailure_landed hv).2
  | lostExecution runner worker now error =>
    have hv := ok_of_map_some h
    exact landed (handleLostExecution_landed hv).2
  | autoRetry now =>
    obtain rfl := Option.some.inj (Except.ok.inj h)
    exact landed (by simp [actionAutoRetry, inFlightStates])
  | unown =>
    obtain rfl := Option.some.inj (Except.ok.inj h)
    have hw : t.state = .waiting := of_decide_eq_true hs
    exact landed (by rw [show _ = _ from hw]; decide)
  | lockWaiting => obtain rfl := Option.some.inj (Except.ok.inj h); rfl
  | move now m => cases m <;> rw [(checked_some h).2]

/-! ## The task of a live thread -/

/-- In flight under `r`, or cancelled. -/
def Carries (r : RunnerId) (t : Task) : Prop :=
  (t.runnerId = some r ∧ t.state ∈ inFlightStates) ∨ t.state = .cancelled

theorem Carries.state {t : Task} (h : Carries r t) :
    t.state = .assigned ∨ t.state = .running ∨ t.state = .stuck ∨ t.state = .cancelled := by
  rcases h with ⟨-, h⟩ | h
  · revert h
    cases t.state <;> decide
  · simp [h]

theorem Carries.same {t t' : Task} (h : Carries r t) (hs : t'.state = t.state)
    (hr : t'.runnerId = t.runnerId) : Carries r t' := by
  unfold Carries
  rwa [hs, hr]

/-- The statements that may take a task from the live thread of `r`. -/
def RowAct.lands (r : RunnerId) : RowAct → Bool
  | .waitChildren => true
  | .done runner _ _ => runner = r
  | .failure runner _ _ _ _ => runner = r
  | .lostExecution _ _ _ _ => true
  | _ => false

theorem Carries.not_final {t : Task} (hc : Carries r t) {runner : RunnerId}
    (hs : finalizable finalStates (some runner) none t = true) : runner = r := by
  obtain ⟨hst, hr, -⟩ := finalizable_iff.1 hs
  rcases hc with ⟨h, -⟩ | h
  · exact Option.some.inj ((hr runner rfl).symm.trans h)
  · rw [h] at hst
    simp [finalStates] at hst

theorem RowAct.run_carries {a : RowAct} {t t' : Task} (hl : a.lands r = false)
    (ha : a.plain k = true) (hs : a.selects (some t) = true)
    (h : a.run reg (some t) = .ok (some t')) (hc : Carries r t) : Carries r t' := by
  change a.onTask reg t = .ok (some t') at h
  have cancelled : t'.state = .cancelled → Carries r t' := .inr
  have onward : t'.runnerId = t.runnerId → t'.state ∈ inFlightStates → t.state ≠ .cancelled →
      Carries r t' := by
    intro hr hf hnc
    exact .inl ⟨hr.trans (hc.resolve_right hnc).1, hf⟩
  have hst := hc.state
  cases a with
  | user u =>
    cases u with
    | create v => cases h
    | lookupUniqueKey key => obtain rfl := Option.some.inj (Except.ok.inj h); exact hc
    | write v => obtain rfl := Option.some.inj (Except.ok.inj h); exact hc.same rfl rfl
    | storePhaseData vals => obtain rfl := Option.some.inj (Except.ok.inj h); exact hc.same rfl rfl
    | enterPhase phase childIds =>
      obtain rfl := Option.some.inj (Except.ok.inj h); exact hc.same rfl rfl
    | actionCancel now => exact cancelled (by rw [(checked_some h).2])
    | actionRetry eta =>
      -- only a failed task is retried by hand
      obtain ⟨v, hv, -⟩ := map_some_ok h
      simp [(actionRetry_ok hv).1] at hst
    | unlink => cases h
  | assign worker uuid => cases ha
  | start now =>
    obtain ⟨hal, rfl⟩ := checked_some h
    exact onward rfl (by simp [inFlightStates]) (by rw [of_allowed_running hal]; decide)
  | stuck =>
    obtain ⟨hal, rfl⟩ := checked_some h
    exact onward rfl (by simp [inFlightStates]) (by rw [of_allowed_stuck hal]; decide)
  | waitChildren => cases hl
  | progress value => obtain rfl := Option.some.inj (Except.ok.inj h); exact hc.same rfl rfl
  | done runner now result => exact absurd (hc.not_final hs) (of_decide_eq_false hl)
  | failure runner now exc traceback read =>
    exact absurd (hc.not_final hs) (of_decide_eq_false hl)
  | lostExecution runner worker now error => cases hl
  | autoRetry now =>
    have hf : t.state = .failed := autoRetryable_failed hs
    simp [hf] at hst
  | unown =>
    have hw : t.state = .waiting := of_decide_eq_true hs
    simp [hw] at hst
  | lockWaiting => obtain rfl := Option.some.inj (Except.ok.inj h); exact hc
  | move now m =>
    have hw : t.state = .waiting := of_decide_eq_true hs
    simp [hw] at hst

theorem recovered_mem {waiting ids : List TaskId} {now n : ℕ} {error e : String}
    {body : List (TaskId × UserAct)} {σ : Snapshot TaskId Task} {L : List TaskId}
    {runner : Option RunnerId} {worker : Option WorkerId}
    (h : (k, RowAct.lostExecution runner worker n e) ∈
      (Tx.recoverLostExecutions waiting ids now error body).stmts reg σ L) : k ∈ ids := by
  have huser : (k, RowAct.lostExecution runner worker n e) ∉ userStmts body := by
    intro hm
    obtain ⟨u, -, hu⟩ := mem_userStmts.1 hm
    cases hu
  simp only [Tx.stmts, List.mem_append, List.mem_map, Prod.mk.injEq] at h
  rcases h with ⟨_, -, -, h⟩ | ⟨_, h, rfl, -⟩ | h
  · cases h
  · exact h
  · split_ifs at h
    · exact absurd h List.not_mem_nil
    · exact absurd h huser

/-- What holds of the threads while recovery takes only tasks of threads that have ended. -/
structure Live (s : Sys) : Prop where
  worker : ∀ th ∈ s.threads, ∀ t, s.db.cur.row th.task = some t → t.runnerId = some th.runner →
    t.state ∈ inFlightStates → t.workerId = some th.worker
  resolving : ∀ th ∈ s.threads, th.tracked = .resolving → th.phase = .ended
  checked : ∀ i x r k now body, s.db.txns i = some x → x.act = .resolvedStuckThread r k now body →
    s.ended r
  recovered : ∀ i x waiting ids now error body, s.db.txns i = some x →
    x.act = .recoverLostExecutions waiting ids now error body →
    ∀ k ∈ ids, ∀ r, Held r (x.snap.row k) → s.ended r
  key : ∀ th ∈ s.threads, th.task ∈ s.db.cur.keys
  drawn : ∀ i x, s.db.txns i = some x → ∀ th ∈ s.threads, th.task ∈ x.act.created →
    x.snap.ver th.task < s.db.cur.ver th.task
  row : ∀ th ∈ s.threads, th.phase ≠ .ended → ∀ t, s.db.cur.row th.task = some t →
    Carries th.runner t
  one : ∀ th ∈ s.threads, ∀ th' ∈ s.threads, th.phase ≠ .ended → th'.phase ≠ .ended →
    th.task = th'.task → th = th'

theorem Start.live (h : Start s) : Live s where
  worker th hm := by rw [h.no_thread] at hm; exact absurd hm List.not_mem_nil
  resolving th hm := by rw [h.no_thread] at hm; exact absurd hm List.not_mem_nil
  checked _ _ _ _ _ _ hx := absurd hx h.closed
  recovered _ _ _ _ _ _ _ hx := absurd hx h.closed
  key th hm := by rw [h.no_thread] at hm; exact absurd hm List.not_mem_nil
  drawn _ _ hx := absurd hx h.closed
  row th hm := by rw [h.no_thread] at hm; exact absurd hm List.not_mem_nil
  one th hm := by rw [h.no_thread] at hm; exact absurd hm List.not_mem_nil

/-- No statement of a commit takes the task from a thread that is live after it. -/
theorem Live.no_lands (hi : Inv reg s) (hb : Busy s) (hl : Live s) {i : ℕ}
    (h : s.step reg (.db (.commit i)) = some s') {x : Txn Tx TaskId Task}
    (hx : s.db.txns i = some x) {th : Thread} (hm : th ∈ s.threads)
    (hlive : (th.after s (.db (.commit i))).phase ≠ .ended)
    (hheld : Held th.runner (x.snap.row th.task)) {a : RowAct}
    (ha : a ∈ x.act.acts reg x.snap x.locked th.task) : a.lands th.runner = false := by
  have hnot := hi.not_ended hm (live_before hi hb h hm hlive)
  have hown : x.act.executes = true → x.act.owner = some (th.runner, th.task) → False := by
    intro hex ho
    refine hlive ?_
    rw [Thread.after_commit hx ho]
    generalize x.act = act at hex
    cases act <;> first | rfl | cases hex
  by_contra hland
  rw [Bool.not_eq_false] at hland
  have hmem := mem_acts.1 ha
  have hiss := stmts_issues hmem
  generalize hact : x.act = act at hiss hmem
  cases hiss with
  | done r now body result =>
    obtain rfl : r = th.runner := of_decide_eq_true hland
    exact hown (by rw [hact]; rfl) (by rw [hact]; rfl)
  | waitChildren r now body =>
    -- the thread that lets its task wait is the live thread of that task
    obtain ⟨th₂, hm₂, hr₂, hk₂, hph⟩ := hb.phase i x r th.task .executing hx (by rw [hact]; rfl)
      (by rw [hact]; rfl)
    have heq := hl.one th hm th₂ hm₂ (live_before hi hb h hm hlive) (by rw [hph]; decide) hk₂.symm
    refine hown (by rw [hact]; rfl) ?_
    rw [hact, heq, hr₂]
    rfl
  | failure r now body exc tb =>
    obtain rfl : r = th.runner := of_decide_eq_true hland
    exact hown (by rw [hact]; rfl) (by rw [hact]; rfl)
  | recovered waiting ids now error body =>
    exact hnot (hl.recovered i x _ _ _ _ _ hx hact _ (recovered_mem hmem) _ hheld)
  | resolved r now body hstuck =>
    obtain ⟨t, ht, hrun, -⟩ := hheld
    rw [ht] at hstuck
    have hr : r = th.runner := Option.some.inj ((of_decide_eq_true hstuck).2.symm.trans hrun)
    exact hnot (hr ▸ hl.checked i x r _ _ _ hx hact)
  | _ => cases hland

theorem Live.step_row (hi : Inv reg s) (hb : Busy s) (hl : Live s) (h : s.step reg ev = some s')
    {th : Thread} (hm : th ∈ s.threads) (hlive : (th.after s ev).phase ≠ .ended) {t' : Task}
    (ht' : s'.db.cur.row th.task = some t') : Carries th.runner t' := by
  have hbefore := live_before hi hb h hm hlive
  rcases Sys.row_plain hi h th.task with hsame | ⟨r, hc⟩ | ⟨i, x, b, rfl, hx, hrow, hk, hnc, hrun⟩
  · exact hl.row th hm hbefore t' (hsame ▸ ht')
  · -- a claim takes pending tasks
    obtain ⟨_, _, _, _, _, _, _, _, _, _, t, ht, hp, -⟩ := hc
    have := (hl.row th hm hbefore t ht).state
    simp [hp] at this
  · have hcreate : ∀ a ∈ x.act.acts reg x.snap x.locked th.task, a.creates = false := by
      refine acts_no_create fun hcr => ?_
      have hlt := hl.drawn i x hx th hm hcr
      rw [(hi.wf.txn i x hx).unchanged _ hk] at hlt
      exact Nat.lt_irrefl _ hlt
    rcases hcur : s.db.cur.row th.task with _ | t
    · rw [hcur] at hrun
      have hnone : s'.db.cur.row th.task = none := runActs_absent hcreate rfl hrun
      rw [hnone] at ht'
      cases ht'
    · rw [hcur] at hrun
      rcases hl.row th hm hbefore t hcur with hheld | hcancel
      · have hsnap : Held th.runner (x.snap.row th.task) := ⟨t, hrow.trans hcur, hheld⟩
        have hplain : ∀ a ∈ x.act.acts reg x.snap x.locked th.task, a.plain th.task = true :=
          plain_acts hnc
        exact runActs_task (R := fun t t' => Carries th.runner t → Carries th.runner t')
          (fun _ h => h) (fun h h' hc => h' (h hc)) hcreate
          (fun a ha _ _ hs hr hc =>
            RowAct.run_carries (hl.no_lands hi hb h hx hm hlive hsnap ha) (hplain a ha) hs hr hc)
          hrun ht' (.inl hheld)
      · refine .inr ?_
        have hchain := runActs_task (R := Relation.ReflTransGen Conforming) (fun _ => .refl) .trans
          hcreate (fun _ _ _ _ hs hr => .single (RowAct.conforms hs hr)) hrun ht'
        rw [final_stays hchain (.inr hcancel), hcancel]

theorem Live.step_worker (hi : Inv reg s) (hl : Live s) (h : s.step reg ev = some s')
    {th : Thread} (hm : th ∈ s.threads) {t' : Task} (ht' : s'.db.cur.row th.task = some t')
    (hr : t'.runnerId = some th.runner) (hf : t'.state ∈ inFlightStates) :
    t'.workerId = some th.worker := by
  rcases Sys.row_plain hi h th.task with hsame | ⟨r, hc⟩ | ⟨i, x, b, -, -, -, -, hnc, hrun⟩
  · exact hl.worker th hm t' (hsame ▸ ht') hr hf
  · -- a claim takes a new runner
    have hnew := (hc.thread h).1 th hm
    obtain ⟨_, _, _, _, _, _, _, _, _, _, t, _, _, hrow⟩ := hc
    rw [hrow] at ht'
    obtain rfl := Option.some.inj ht'
    exact absurd (Option.some.inj hr).symm hnew
  · have hplain : ∀ a ∈ x.act.acts reg x.snap x.locked th.task, a.plain th.task = true :=
      plain_acts hnc
    obtain ⟨t, ht, htr, htf⟩ := (runActs_kept hplain hrun).held ⟨t', ht', hr, hf⟩
    have hkeep := runActs_rel (R := fun o o' => ∀ t', o' = some t' → t'.state ∈ inFlightStates →
        ∃ t, o = some t ∧ t.state ∈ inFlightStates ∧ t'.workerId = t.workerId)
      (fun o t' ht' hf => ⟨t', ht', hf, rfl⟩)
      (fun h₁ h₂ t₃ ht₃ hf₃ => by
        obtain ⟨t₂, ht₂, hf₂, hw₂⟩ := h₂ t₃ ht₃ hf₃
        obtain ⟨t₁, ht₁, hf₁, hw₁⟩ := h₁ t₂ ht₂ hf₂
        exact ⟨t₁, ht₁, hf₁, hw₂.trans hw₁⟩)
      (fun a ha o o' hs hrun t' ht' hf => by
        subst ht'
        obtain ⟨u, rfl, huf, -⟩ := (RowAct.run_kept (hplain a ha) hrun).flight t' rfl hf
        exact ⟨u, rfl, huf, RowAct.run_worker (hplain a ha) hs hrun hf⟩) hrun t' ht' hf
    obtain ⟨u, hu, -, hw⟩ := hkeep
    obtain rfl := Option.some.inj (ht.symm.trans hu)
    exact hw.trans (hl.worker th hm t ht htr htf)

theorem Live.step (hi : Inv reg s) (hb : Busy s) (hl : Live s) (hok : s.recoversEnded ev = true)
    (h : s.step reg ev = some s') : Live s' where
  worker th' hm' t' ht' hr hf := by
    rcases Sys.step_thread h hm' with ⟨th, hm, rfl⟩ | ⟨i, x, rfl, hx, hsp⟩
    · obtain ⟨h1, h2, h3⟩ := th.after_same s ev
      rw [h3]
      exact hl.step_worker hi h hm (h2 ▸ ht') (h1 ▸ hr) hf
    · obtain ⟨t, -, -, hrow⟩ := spawned_claimed hi h hx hsp
      obtain rfl := Option.some.inj (ht'.symm.trans hrow)
      rfl
  resolving th' hm' ht := by
    rcases Sys.step_thread h hm' with ⟨th, hm, rfl⟩ | ⟨i, x, rfl, hx, hsp⟩
    · refine ended_after hi hb h hm ?_
      exact (resolving_after ht).elim (hl.resolving th hm) id
    · obtain ⟨c, rank, uuid, -, -, hth⟩ := mem_spawned hsp
      rw [hth] at ht
      cases ht
  checked i x r k now body hx hact := by
    rcases Sys.step_txn h hx with ⟨y, hy, hya, -⟩ | ⟨-, -, -, hallow, -⟩
    · exact Sys.ended_step hi hb h (hl.checked i y r k now body hy (hya ▸ hact))
    · rw [hact] at hallow
      obtain ⟨th, hm, rfl, -, hready⟩ := allows_owner hallow rfl
      exact Sys.ended_step hi hb h ⟨th, hm, rfl, hl.resolving th hm (of_decide_eq_true hready)⟩
  recovered i x waiting ids now error body hx hact k hk r hh := by
    rcases Sys.step_txn h hx with ⟨y, hy, hya, hsnap⟩ | ⟨hev, hsnap, -, -, -⟩
    · rw [hsnap] at hh
      exact Sys.ended_step hi hb h (hl.recovered i y _ _ _ _ _ hy (hya ▸ hact) k hk r hh)
    · rw [hsnap] at hh
      obtain ⟨th, hm, rfl, rfl⟩ := hi.held k r hh
      obtain ⟨t, ht, hr, hf⟩ := hh
      refine Sys.ended_step hi hb h ⟨th, hm, rfl, ?_⟩
      rw [hev, hact] at hok
      simp only [Sys.recoversEnded, List.all_eq_true] at hok
      have hall := hok _ hk
      rw [ht, Option.all_some, List.all_eq_true] at hall
      exact of_decide_eq_true (hall th hm) (hl.worker th hm t ht hr hf)
  key th' hm' := by
    rcases Sys.step_thread h hm' with ⟨th, hm, rfl⟩ | ⟨i, x, rfl, hx, hsp⟩
    · rw [(th.after_same s ev).2.1]
      exact Sys.keys_subset h (hl.key th hm)
    · obtain ⟨t, ht, -, -⟩ := spawned_claimed hi h hx hsp
      exact Sys.keys_subset h (hi.wf.cur.present _ _ ht)
  drawn i x hx th' hm' hk := by
    rcases Sys.step_txn h hx with ⟨y, hy, hya, hsnap⟩ | ⟨hev, -, -, hallow, -⟩
    · rw [hsnap]
      rcases Sys.step_thread h hm' with ⟨th, hm, rfl⟩ | ⟨j, z, rfl, hz, hsp⟩
      · rw [(th.after_same s ev).2.1] at hk ⊢
        exact Nat.lt_of_lt_of_le (hl.drawn i y hy th hm (hya ▸ hk)) (Sys.ver_le h _)
      · exact Nat.lt_of_le_of_lt ((hi.wf.txn i y hy).older _) (spawned_ver hi h hz hsp)
    · rcases Sys.step_thread h hm' with ⟨th, hm, rfl⟩ | ⟨j, z, hev', -, -⟩
      · rw [(th.after_same s ev).2.1] at hk
        exact absurd (hl.key th hm) (allows_created hallow hk)
      · rw [hev] at hev'
        cases hev'
  row th' hm' hlive t' ht' := by
    rcases Sys.step_thread h hm' with ⟨th, hm, rfl⟩ | ⟨i, x, rfl, hx, hsp⟩
    · obtain ⟨h1, h2, -⟩ := th.after_same s ev
      rw [h1]
      exact hl.step_row hi hb h hm hlive (h2 ▸ ht')
    · obtain ⟨t, -, -, hrow⟩ := spawned_claimed hi h hx hsp
      obtain rfl := Option.some.inj (ht'.symm.trans hrow)
      exact .inl ⟨rfl, List.mem_cons_self⟩
  one th₁ hm₁ th₂ hm₂ hl₁ hl₂ hk := by
    -- the row of a new thread was pending, so its task had no live thread
    have hnew : ∀ {i x} {th new : Thread}, ev = .db (.commit i) → s.db.txns i = some x →
        new ∈ spawned x → th ∈ s.threads → th.phase ≠ .ended → th.task ≠ new.task := by
      rintro i x th new rfl hx hsp hm hlive heq
      obtain ⟨t, ht, hp, -⟩ := spawned_claimed hi h hx hsp
      have := (hl.row th hm hlive t (heq ▸ ht)).state
      simp [hp] at this
    rcases Sys.step_thread h hm₁ with ⟨u₁, hu₁, rfl⟩ | ⟨i, x, hev, hx, hsp⟩ <;>
      rcases Sys.step_thread h hm₂ with ⟨u₂, hu₂, rfl⟩ | ⟨j, y, hev', hy, hsp'⟩
    · rw [(u₁.after_same s ev).2.1, (u₂.after_same s ev).2.1] at hk
      rw [hl.one u₁ hu₁ u₂ hu₂ (live_before hi hb h hu₁ hl₁) (live_before hi hb h hu₂ hl₂) hk]
    · rw [(u₁.after_same s ev).2.1] at hk
      exact absurd hk (hnew hev' hy hsp' hu₁ (live_before hi hb h hu₁ hl₁))
    · rw [(u₂.after_same s ev).2.1] at hk
      exact absurd hk.symm (hnew hev hx hsp hu₂ (live_before hi hb h hu₂ hl₂))
    · obtain rfl := Event.commit.inj (Ev.db.inj (hev.symm.trans hev'))
      obtain rfl := Option.some.inj (hx.symm.trans hy)
      obtain ⟨c, rank, uuid, hact, -, hth⟩ := mem_spawned hsp
      obtain ⟨c', rank', uuid', hact', -, hth'⟩ := mem_spawned hsp'
      obtain ⟨rfl, -, rfl⟩ := Tx.claimTask.inj (hact.symm.trans hact')
      rw [hth, hth', hk]

end GenericTaskQueue
