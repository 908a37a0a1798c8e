import GenericBackground.Lib.Drain
import GenericBackground.TaskQueue.Outcome
import GenericBackground.TaskQueue.SkipLocked
import Mathlib.Data.Finset.Card

/-!
# Working off the queue

No reachable state is a dead end. Whatever has happened, once the transactions that are open have
ended, a worker alone can claim, start and execute one task after the other until its query returns
nothing (`queue_worked_off`): a claim alone goes through, the thread that it spawns starts the task,
and the execution makes it done. Only tasks that were eligible are touched, and each ends with its
result.
-/

namespace GenericTaskQueue

open RowStore Lts

variable {reg : Registry} {s s' : Sys} {es : List Ev} {c : ClaimArgs} {rank : TaskId → ℕ}
  {result : TaskId → Option Json} {n : ℕ}

/-- The transactions of a worker whose task code goes well and touches no task. -/
def Tx.worksOff (c : ClaimArgs) (result : TaskId → Option Json) : Tx → Prop
  | .claimTask c' _ _ => ∃ limit, c' = { c with limit := limit }
  | .actionStart _ _ _ => True
  | .execute _ id _ body outcome => body = [] ∧ outcome = .returns (result id)
  | _ => False

/-- The worker alone: no other transaction begins, none of its own fails, no thread dies. Those that
were open before, with ids below `n`, may abort. -/
def WorksOff (c : ClaimArgs) (result : TaskId → Option Json) (n : ℕ) (_ : Sys) : Ev → Prop
  | .db (.begin a) => a.worksOff c result
  | .db (.abort i) => i < n
  | .db (.skip _) => False
  | .kill _ => False
  | _ => True

def OnlyDone (c : ClaimArgs) (rank : TaskId → ℕ) (result : TaskId → Option Json)
    (σ σ' : Snapshot TaskId Task) : Prop :=
  ∀ k, σ'.row k = σ.row k ∨
    ∃ t, σ.row k = some t ∧ Eligible c (ranked rank σ) t ∧ DoneAs (result k) t (σ'.row k)

/-! ## What is open aborts -/

theorem exists_abort_run (c : ClaimArgs) (result : TaskId → Option Json) (hi : Inv reg s)
    (hn : s.db.nextId ≤ n) : ∃ es s', Path (Sys.step reg) (WorksOff c result n) s es s' ∧
      (∀ i, s'.db.txns i = none) ∧ s'.db.cur = s.db.cur := by
  -- those from `m` on have ended
  have key : ∀ m ≤ n, ∀ s : Sys, (∀ i, m ≤ i → s.db.txns i = none) → ∃ es s',
      Path (Sys.step reg) (WorksOff c result n) s es s' ∧ (∀ i, s'.db.txns i = none) ∧
        s'.db.cur = s.db.cur := by
    intro m hm
    induction m with
    | zero => exact fun s hs => ⟨[], s, .nil s, fun i => hs i (Nat.zero_le i), rfl⟩
    | succ m ih =>
      intro s hs
      rcases hx : s.db.txns m with _ | x
      · refine ih (by omega) s fun i hmi => ?_
        rcases Nat.eq_or_lt_of_le hmi with rfl | hlt
        · exact hx
        · exact hs i hlt
      · have habort : s.step reg (.db (.abort m)) = some _ :=
          Sys.step_of_step rfl (step_iff.2 (.abort hx))
        obtain ⟨es, s', hp, hclosed, hcur⟩ := ih (by omega)
          ⟨s.db.set m none, s.threads.map (Thread.after s (.db (.abort m)))⟩ fun i hmi => by
            by_cases hne : i = m
            · rw [hne]
              exact set_txns_self _ _ _
            · exact (set_txns_ne _ _ hne).trans (hs i (by omega))
        have hok : WorksOff c result n s (.db (.abort m)) := Nat.lt_of_succ_le hm
        exact ⟨_, s', .cons hok habort hp, hclosed, hcur⟩
  refine key s.db.nextId hn s fun i hle => ?_
  rcases hx : s.db.txns i with _ | x
  · rfl
  · exact absurd (hi.wf.bound i x hx) (Nat.not_lt.2 hle)

/-! ## One task -/

theorem worksOff_run {a : Tx} {m i : ℕ}
    (h : Path (Sys.step reg) anyStep s (.db (.begin a) ::
      (List.replicate m (.db (.lock i)) ++ [.db (.commit i)])) s') (ha : a.worksOff c result) :
    Path (Sys.step reg) (WorksOff c result n) s (.db (.begin a) ::
      (List.replicate m (.db (.lock i)) ++ [.db (.commit i)])) s' := by
  refine h.of_events fun e he s => ?_
  rcases List.mem_cons.1 he with rfl | he
  · exact ha
  rcases List.mem_append.1 he with he | he
  · rw [List.eq_of_mem_replicate he]
    trivial
  · rw [List.mem_singleton.1 he]
    trivial

theorem allows_begin {a : Tx} {th : Thread} (hm : th ∈ s.threads) (hown : th.owns a = true)
    (hready : th.ready a = true) (hc : a.created = []) : s.allows (.begin a) = true := by
  unfold Sys.allows
  simp only [hc, List.all_nil, Bool.and_true, Bool.or_eq_true, List.any_eq_true, Bool.and_eq_true]
  exact .inr ⟨th, hm, hown, hready⟩

theorem start_run (c : ClaimArgs) (result : TaskId → Option Json) (n : ℕ) (hi : Inv reg s)
    (hidle : ∀ i, s.db.txns i = none) {th : Thread} (hm : th ∈ s.threads)
    (hph : th.phase = .spawned) {t : Task}
    (ht : s.db.cur.row th.task = some t) (hs : t.state = .assigned) (now : ℕ) :
    ∃ es s', Path (Sys.step reg) (WorksOff c result n) s es s' ∧ (∀ i, s'.db.txns i = none) ∧
      s'.db.cur.row th.task =
        some { t with state := .running, dateStarted := some now, progress := 0 } ∧
      (∀ j ≠ th.task, s'.db.cur.row j = s.db.cur.row j) ∧
      { th with phase := .started } ∈ s'.threads := by
  have hown : th.owns (.actionStart th.runner th.task now) = true := decide_eq_true rfl
  have hrun : (RowAct.start now).run reg (s.db.cur.row th.task) =
      .ok (some { t with state := .running, dateStarted := some now, progress := 0 }) := by
    rw [ht]
    show (actionStart now t).map some = _
    unfold actionStart
    rw [checked_of_mem (by rw [hs]; decide)]
    rfl
  obtain ⟨m, s', hp, hrow, hother, hclosed, hths⟩ := Sys.run_one hi hidle
    (allows_begin hm hown (decide_eq_true hph) rfl) (fun _ => rfl) rfl (fun _ => rfl)
    (by rw [ht]; rfl) hrun
  refine ⟨_, s', worksOff_run hp trivial, hclosed, hrow, hother, ?_⟩
  rw [hths]
  refine List.mem_map.2 ⟨th, hm, ?_⟩
  unfold Thread.done
  rw [if_pos hown]
  rfl

theorem execute_run (c : ClaimArgs) (result : TaskId → Option Json) (n : ℕ) (hi : Inv reg s)
    (hidle : ∀ i, s.db.txns i = none) {th : Thread} (hm : th ∈ s.threads)
    (hph : th.phase = .started) {t : Task}
    (ht : s.db.cur.row th.task = some t) (hs : t.state = .running)
    (hr : t.runnerId = some th.runner) (now : ℕ) :
    ∃ es s', Path (Sys.step reg) (WorksOff c result n) s es s' ∧ (∀ i, s'.db.txns i = none) ∧
      DoneAs (result th.task) t (s'.db.cur.row th.task) ∧
      ∀ j ≠ th.task, s'.db.cur.row j = s.db.cur.row j := by
  have hown : th.owns (.execute th.runner th.task now [] (.returns (result th.task))) = true :=
    decide_eq_true rfl
  have hrun : (RowAct.done th.runner now (result th.task)).run reg (s.db.cur.row th.task) =
      .ok (some { t with
        state := .done, taskResult := result th.task, dateCompleted := some now
        progress := 100 }) := by
    rw [ht]
    show (actionDone now (result th.task) t).map some = _
    unfold actionDone
    rw [checked_of_mem (by rw [hs]; decide)]
    rfl
  have hsel : (RowAct.done th.runner now (result th.task)).selects
      (s.db.cur.row th.task) = true := by
    rw [ht]
    exact finalizable_iff.2 ⟨by rw [hs]; decide, fun _ hq => hq ▸ hr, by simp⟩
  obtain ⟨m, s', hp, hrow, hother, hclosed, -⟩ := Sys.run_one hi hidle
    (allows_begin hm hown (decide_eq_true hph) rfl) (fun _ => rfl) rfl (fun _ => rfl) hsel hrun
  exact ⟨_, s', worksOff_run hp ⟨rfl, rfl⟩, hclosed, ⟨_, hrow, rfl, rfl, rfl, rfl⟩, hother⟩

theorem exists_runner_bound (l : List ℕ) : ∃ N, ∀ r ∈ l, r < N := by
  induction l with
  | nil => exact ⟨0, by simp⟩
  | cons r l ih =>
    obtain ⟨N, hN⟩ := ih
    refine ⟨max N (r + 1), fun q hq => ?_⟩
    rcases List.mem_cons.1 hq with rfl | hq
    · omega
    · have := hN q hq
      omega

/-- **One task.** If the query of a claim returns a task, the first one can be done. -/
theorem work_one (c : ClaimArgs) (result : TaskId → Option Json) (n : ℕ) {s₀ : Sys}
    (h0 : Start s₀) (hp : Path (Sys.step reg) anyStep s₀ es s)
    (hidle : ∀ i, s.db.txns i = none) {t : Task} {ts : List Task}
    (hsel : claimSelect c (ranked rank s.db.cur) = t :: ts) :
    ∃ es' s', Path (Sys.step reg) (WorksOff c result n) s es' s' ∧ (∀ i, s'.db.txns i = none) ∧
      DoneAs (result t.id) t (s'.db.cur.row t.id) ∧
      ∀ j ≠ t.id, s'.db.cur.row j = s.db.cur.row j := by
  have hi : Inv reg s := h0.inv.path hp
  obtain ⟨N, hN⟩ := exists_runner_bound (s.threads.map Thread.runner)
  have htaken : taken { c with limit := 1 } (ranked rank s.db.cur) [] = [t] := by
    unfold taken
    rw [show claimSelect { c with limit := 1 } (ranked rank s.db.cur) = t :: ts from hsel,
      List.filter_eq_self.2 (by simp)]
    rfl
  -- it is claimed alone
  obtain ⟨m, s₁, hp₁, hidle₁, hone, hrest₁⟩ := claim_run h0 hp hidle { c with limit := 1 } rank
    (N + ·) (fun j _ k _ h => Nat.add_left_cancel h) (fun k hk => by have := hN _ hk; omega)
  rw [htaken] at hone hrest₁
  obtain ⟨hrow₁, hth₁⟩ := hone t (List.mem_singleton_self t)
  have hi₁ : Inv reg s₁ := hi.path hp₁
  -- its thread starts it, and executes it
  obtain ⟨es₂, s₂, hp₂, hidle₂, hrow₂, hrest₂, hth₂⟩ :=
    start_run c result n hi₁ hidle₁ hth₁ rfl hrow₁ rfl c.now
  obtain ⟨es₃, s₃, hp₃, hidle₃, hdone, hrest₃⟩ :=
    execute_run c result n (hi₁.path hp₂) hidle₂ hth₂ rfl hrow₂ rfl rfl
      c.now
  refine ⟨_, s₃, ((worksOff_run hp₁ ⟨1, rfl⟩).append hp₂).append hp₃, hidle₃, ?_, fun j hj => ?_⟩
  · obtain ⟨u, hu, hd, hres, hcount, herr⟩ := hdone
    exact ⟨u, hu, hd, hres, hcount, herr⟩
  · rw [hrest₃ j hj, hrest₂ j hj, hrest₁ j (by simpa using hj)]

/-! ## The whole queue -/

theorem mem_ranked_row {σ : Snapshot TaskId Task} (h : σ.Ok) {t : Task} :
    t ∈ ranked rank σ ↔ ∃ k, σ.row k = some t := mem_ranked.trans (Snapshot.mem_table h)

theorem DoneAs.not_pending {o : Option Json} {t u : Task} (h : DoneAs o t (some u)) :
    u.state ≠ .pending := by
  obtain ⟨v, hv, hd, -⟩ := h
  obtain rfl := Option.some.inj hv
  rw [hd]
  exact TaskState.noConfusion

theorem OnlyDone.typeInFlight {σ σ' : Snapshot TaskId Task} (h : OnlyDone c rank result σ σ')
    (hσ : σ.Ok) (hσ' : σ'.Ok) {code : TypeCode}
    (hfree : typeInFlight (ranked rank σ') code = false) :
    typeInFlight (ranked rank σ) code = false := by
  rw [Bool.eq_false_iff] at hfree ⊢
  refine fun hin => hfree ?_
  obtain ⟨u, hu, hin⟩ := List.any_eq_true.1 hin
  obtain ⟨k, hk⟩ := (mem_ranked_row hσ).1 hu
  refine List.any_eq_true.2 ⟨u, (mem_ranked_row hσ').2 ⟨k, ?_⟩, hin⟩
  rcases h k with hsame | ⟨t, ht, hel, -⟩
  · rw [hsame, hk]
  · -- an eligible task is not in flight
    obtain rfl := Option.some.inj (hk.symm.trans ht)
    have := (of_decide_eq_true hin).2
    rw [hel.1] at this
    exact absurd this (by decide)

theorem OnlyDone.trans_one {σ₀ σ σ' : Snapshot TaskId Task} (h : OnlyDone c rank result σ₀ σ)
    (h₀ : σ₀.Ok) (hσ : σ.Ok) {t : Task} (ht : σ.row t.id = some t)
    (hcl : claimable c (ranked rank σ) t = true) (hdone : DoneAs (result t.id) t (σ'.row t.id))
    (hrest : ∀ j ≠ t.id, σ'.row j = σ.row j) : OnlyDone c rank result σ₀ σ' := by
  intro k
  by_cases hk : k = t.id
  · subst hk
    obtain ⟨hp, hch, htype, heta, hsing⟩ := claimable_iff.1 hcl
    rcases h t.id with hsame | ⟨u, -, -, hd⟩
    · refine .inr ⟨t, hsame ▸ ht, ⟨hp, hch, htype, heta, fun hs => ?_⟩, hdone⟩
      exact h.typeInFlight h₀ hσ (hsing hs).1
    · rw [ht] at hd
      exact absurd hp hd.not_pending
  · rw [hrest k hk]
    exact h k

/-- An eligible task that nothing has been done to is claimable, unless its type is a singleton. -/
theorem OnlyDone.done_of_empty {σ σ' : Snapshot TaskId Task} (h : OnlyDone c rank result σ σ')
    (hσ' : σ'.Ok) (hempty : claimSelect c (ranked rank σ') = []) {k : TaskId} {t : Task}
    (ht : σ.row k = some t) (hel : Eligible c (ranked rank σ) t)
    (hsing : t.typeCode ∉ c.singletonTypes) : DoneAs (result k) t (σ'.row k) := by
  rcases h k with hsame | ⟨u, hu, -, hd⟩
  · obtain ⟨hp, hch, htype, heta, -⟩ := hel
    have hm : t ∈ claimSelect c (ranked rank σ') := Query.mem_select.2
      ⟨(mem_ranked_row hσ').2 ⟨k, hsame.trans ht⟩,
        claimable_iff.2 ⟨hp, hch, htype, heta, fun hs => absurd hs hsing⟩⟩
    rw [hempty] at hm
    exact absurd hm List.not_mem_nil
  · obtain rfl := Option.some.inj (ht.symm.trans hu)
    exact hd

def pendingKeys (keys : List TaskId) (σ : Snapshot TaskId Task) : Finset TaskId :=
  keys.toFinset.filter fun k => (σ.row k).any fun t => t.state = .pending

theorem pendingKeys_lt {keys : List TaskId} {σ σ' : Snapshot TaskId Task} {t : Task}
    (hk : t.id ∈ keys) (ht : σ.row t.id = some t) (hp : t.state = .pending) {o : Option Json}
    (hdone : DoneAs o t (σ'.row t.id)) (hrest : ∀ j ≠ t.id, σ'.row j = σ.row j) :
    (pendingKeys keys σ').card < (pendingKeys keys σ).card := by
  have hout : t.id ∉ pendingKeys keys σ' := fun hm => by
    obtain ⟨u, hu, hd, -⟩ := hdone
    have := (Finset.mem_filter.1 hm).2
    rw [hu] at this
    simp [hd] at this
  refine Finset.card_lt_card ⟨fun k hm => ?_, fun hsub => hout (hsub ?_)⟩
  · obtain ⟨hkey, hpend⟩ := Finset.mem_filter.1 hm
    refine Finset.mem_filter.2 ⟨hkey, ?_⟩
    rwa [← hrest k fun he => hout (he ▸ hm)]
  · refine Finset.mem_filter.2 ⟨List.mem_toFinset.2 hk, ?_⟩
    rw [ht]
    simp [hp]

/-- **No dead end.** From every reachable state, once the open transactions have ended, a worker
alone can make one eligible task after the other done with its result, until its query returns
nothing; then all those are done that are not of a singleton type, and nothing else has changed. -/
theorem queue_worked_off {s₀ : Sys} (h0 : Start s₀) (hp : Path (Sys.step reg) anyStep s₀ es s)
    (c : ClaimArgs) (rank : TaskId → ℕ) (result : TaskId → Option Json) :
    ∃ es' s', Path (Sys.step reg) (WorksOff c result s.db.nextId) s es' s' ∧
      (∀ i, s'.db.txns i = none) ∧ claimSelect c (ranked rank s'.db.cur) = [] ∧
      (∀ k t, s.db.cur.row k = some t → Eligible c (ranked rank s.db.cur) t →
        t.typeCode ∉ c.singletonTypes → DoneAs (result k) t (s'.db.cur.row k)) ∧
      ∀ k, s'.db.cur.row k = s.db.cur.row k ∨ ∃ t, s.db.cur.row k = some t ∧
        Eligible c (ranked rank s.db.cur) t ∧ DoneAs (result k) t (s'.db.cur.row k) := by
  have hok : s.db.cur.Ok := (h0.inv.path hp : Inv reg s).wf.cur
  -- first, what is open aborts
  obtain ⟨es₁, s₁, hp₁, hidle₁, hcur₁⟩ := exists_abort_run c result
    (h0.inv.path hp : Inv reg s) (Nat.le_refl _)
  let I : Sys → Prop := fun s' => (∃ es', Path (Sys.step reg) anyStep s₀ es' s') ∧
    (∀ i, s'.db.txns i = none) ∧ OnlyDone c rank result s.db.cur s'.db.cur
  -- then, one task after the other
  have hwork : ∀ s', I s' → ¬ claimSelect c (ranked rank s'.db.cur) = [] → ∃ es' s'',
      Path (Sys.step reg) (WorksOff c result s.db.nextId) s' es' s'' ∧ I s'' ∧
        (pendingKeys s.db.cur.keys s''.db.cur).card <
          (pendingKeys s.db.cur.keys s'.db.cur).card := by
    rintro s' ⟨⟨es', hp'⟩, hidle, honly⟩ hne
    obtain ⟨t, ts, hsel⟩ := List.exists_cons_of_ne_nil hne
    have hi' : Inv reg s' := h0.inv.path hp'
    obtain ⟨hm, hcl⟩ := claimSelect_pending (hsel ▸ List.mem_cons_self)
    have ht := row_of_ranked hi'.wf.cur hi'.ids hm
    have hpend := (claimable_iff.1 hcl).1
    obtain ⟨es'', s'', hp'', hidle'', hd, hrest⟩ := work_one c result _ h0 hp' hidle hsel
    have hkey : t.id ∈ s.db.cur.keys := by
      rcases honly t.id with hsame | ⟨u, hu, -⟩
      · exact hok.present _ t (hsame ▸ ht)
      · exact hok.present _ u hu
    exact ⟨es'', s'', hp'', ⟨⟨_, hp'.append (hp''.imp fun _ _ _ => trivial)⟩, hidle'',
      honly.trans_one hok hi'.wf.cur ht hcl hd hrest⟩, pendingKeys_lt hkey ht hpend hd hrest⟩
  obtain ⟨es₂, s₂, hp₂, ⟨⟨_, hp₂'⟩, hidle₂, honly⟩, hdone⟩ := exists_drain I _ _ hwork (s := s₁)
    ⟨⟨_, hp.append (hp₁.imp fun _ _ _ => trivial)⟩, hidle₁, fun k => .inl (by rw [hcur₁])⟩
  have hok₂ : s₂.db.cur.Ok := (h0.inv.path hp₂' : Inv reg s₂).wf.cur
  exact ⟨_, s₂, hp₁.append hp₂, hidle₂, hdone, fun k t ht hel hsing =>
    honly.done_of_empty hok₂ hdone ht hel hsing, honly⟩

/-- One claim has committed, the other one is open and holds the second task. -/
theorem claimsMeet_worked_off : ∃ s es' s',
    Path (Sys.step []) anyStep (Sys.init exportQueue) claimsMeet s ∧
    s.db.holds 1 2 = true ∧ (s.db.cur.row 1).map Task.state = some .assigned ∧
    Path (Sys.step []) (WorksOff (exportClaim 1) (fun k => some (.int k)) s.db.nextId) s es' s' ∧
    claimSelect (exportClaim 1) (ranked id s'.db.cur) = [] ∧
    (∀ k ∈ [2, 3], ∃ u, s'.db.cur.row k = some u ∧ u.state = .done ∧
      u.taskResult = some (.int k)) ∧ s'.db.cur.row 1 = s.db.cur.row 1 := by
  have hp : Path (Sys.step []) anyStep (Sys.init exportQueue) claimsMeet (reached _ _ _ _) :=
    path_reached (by decide +kernel)
  obtain ⟨es', s', hp', -, hempty, hdone, honly⟩ := queue_worked_off (Start.init (by decide)) hp
    (exportClaim 1) id fun k => some (.int k)
  refine ⟨_, es', s', hp, by decide +kernel, by decide +kernel, hp', hempty, fun k hk => ?_, ?_⟩
  · have hel : ∀ k ∈ [2, 3], ∃ t ∈ exportQueue.rows, (reached (Sys.step []) anyStep
        (Sys.init exportQueue) claimsMeet).db.cur.row k = some t ∧
        Eligible (exportClaim 1) (ranked id (reached (Sys.step []) anyStep (Sys.init exportQueue)
          claimsMeet).db.cur) t ∧ t.typeCode ∉ (exportClaim 1).singletonTypes := by
      decide +kernel
    obtain ⟨t, -, ht, hel, hsing⟩ := hel k hk
    obtain ⟨u, hu, hd, hres, -⟩ := hdone k t ht hel hsing
    exact ⟨u, hu, hd, hres⟩
  · rcases honly 1 with hsame | ⟨t, ht, hel, -⟩
    · exact hsame
    · have hne : ∀ t, (reached (Sys.step []) anyStep (Sys.init exportQueue)
          claimsMeet).db.cur.row 1 = some t → t.state ≠ .pending := by
        decide +kernel
      exact absurd hel.1 (hne t ht)

end GenericTaskQueue
