import GenericBackground.TaskQueue.StateMachine

/-!
# The retry budget

`retry_count` is compared with `max_retries` in five places: before the row lock by the failure
handler, and under it by crash recovery, by the check of resolved stuck threads and by the poll of
failed tasks. A task that is not edited starts at most `1 + max_retries` times, and once more for
each manual retry (`retry_budget`).

The bound is a potential: an attempt that has yet to start is spare, and so is whatever
`retry_count` has not yet counted (`spare`). Starting the task takes one, and only a manual retry
gives one back.
-/

namespace GenericTaskQueue

open RowStore Lts

variable {reg : Registry} {s s' : Sys} {ev : Ev} {k : TaskId}

/-! ## What a run does to one task -/

/-- The statements on row `k` of the transaction that commits. -/
def Sys.stmtsOn (reg : Registry) (k : TaskId) (s : Sys) : Ev → List RowAct
  | .db (.commit i) => (s.db.txns i).elim [] fun x => x.act.acts reg x.snap x.locked k
  | _ => []

/-- A user writes the task or deletes it. -/
def RowAct.edits : RowAct → Bool
  | .user (.write _) => true
  | .user .unlink => true
  | _ => false

def RowAct.byHand : RowAct → Bool
  | .user (.actionRetry _) => true
  | _ => false

def RowAct.starts : RowAct → Bool
  | .start _ => true
  | _ => false

def Unedited (reg : Registry) (k : TaskId) (s : Sys) (ev : Ev) : Prop :=
  ∀ a ∈ s.stmtsOn reg k ev, a.edits = false

instance (reg : Registry) (k : TaskId) (s : Sys) (ev : Ev) : Decidable (Unedited reg k s ev) := by
  unfold Unedited; infer_instance

def Sys.manualRetries (reg : Registry) (k : TaskId) (s : Sys) (ev : Ev) : ℕ :=
  (s.stmtsOn reg k ev).countP RowAct.byHand

/-- Whether task `k` enters `running`. -/
def Sys.entersRunning (reg : Registry) (k : TaskId) (s : Sys) (ev : Ev) : ℕ :=
  if (s.db.cur.row k).map Task.state ≠ some .running ∧
      ((s.step reg ev).bind fun s' => (s'.db.cur.row k).map Task.state) = some .running then 1
  else 0

/-- What is left of the attempts of a task, up to its `max_retries`. -/
def spare (t : Task) : ℤ :=
  (if t.state = .pending ∨ t.state = .assigned then 1 else 0) - t.retryCount

theorem spare_le (t : Task) : spare t ≤ 1 - t.retryCount := by
  unfold spare; split_ifs <;> omega

theorem le_spare (t : Task) : -t.retryCount ≤ spare t := by
  unfold spare; split_ifs <;> omega

theorem spare_of_queued {t : Task} (h : t.state = .pending ∨ t.state = .assigned) :
    spare t = 1 - t.retryCount := by
  unfold spare
  rw [if_pos h]

theorem spare_of_started {t : Task} (h : t.state ≠ .pending) (h' : t.state ≠ .assigned) :
    spare t = -t.retryCount := by
  unfold spare
  rw [if_neg (by simp [h, h'])]
  omega

/-! ## One statement -/

/-- What a statement that does not start the task makes of it: `hand` is 1 for a manual retry. -/
structure Spends (hand : ℕ) (t t' : Task) : Prop where
  spare : spare t' ≤ spare t + hand
  running : t'.state = .running → t.state = .running

theorem Spends.refl (t : Task) : Spends 0 t t := ⟨by omega, fun h => h⟩

theorem Spends.trans {m n : ℕ} {t₁ t₂ t₃ : Task} (h : Spends m t₁ t₂) (h' : Spends n t₂ t₃) :
    Spends (m + n) t₁ t₃ := by
  refine ⟨?_, fun hr => h.running (h'.running hr)⟩
  have h1 := h.spare
  have h2 := h'.spare
  omega

theorem Spends.same {t t' : Task} (hs : t'.state = t.state) (hc : t'.retryCount = t.retryCount) :
    Spends 0 t t' := by
  refine ⟨?_, fun h => hs ▸ h⟩
  unfold GenericTaskQueue.spare
  rw [hs, hc]
  omega

theorem Spends.landed {t t' : Task} (hc : t'.retryCount = t.retryCount)
    (hp : t'.state ≠ .pending) (ha : t'.state ≠ .assigned) (hr : t'.state ≠ .running) :
    Spends 0 t t' := by
  refine ⟨?_, fun h => absurd h hr⟩
  have := le_spare t
  rw [spare_of_started hp ha, hc]
  omega

theorem Spends.queued {t t' : Task} (h : t.state = .pending ∨ t.state = .assigned)
    (h' : t'.state = .pending ∨ t'.state = .assigned) (hc : t'.retryCount = t.retryCount) :
    Spends 0 t t' := by
  refine ⟨?_, fun hr => ?_⟩
  · rw [spare_of_queued h, spare_of_queued h', hc]
    omega
  · rcases h' with h' | h' <;> rw [h'] at hr <;> cases hr

theorem actionAutoRetry_spends {t : Task} {eta : Option ℕ} :
    Spends 0 t (actionAutoRetry eta t) := by
  refine ⟨?_, nofun⟩
  have h1 := spare_le (actionAutoRetry eta t)
  have h2 := le_spare t
  have h3 : (actionAutoRetry eta t).retryCount = t.retryCount + 1 := rfl
  omega

theorem UserAct.spends {u : UserAct} {t t' : Task} (h : u.onTask t = .ok (some t')) :
    Spends ((RowAct.user u).byHand).toNat t t' := by
  cases u with
  | create v => cases h
  | lookupUniqueKey key =>
    obtain rfl := Option.some.inj (Except.ok.inj h)
    exact .refl t
  | write v =>
    obtain rfl := Option.some.inj (Except.ok.inj h)
    exact .same rfl rfl
  | storePhaseData vals =>
    obtain rfl := Option.some.inj (Except.ok.inj h)
    exact .same rfl rfl
  | enterPhase phase childIds =>
    obtain rfl := Option.some.inj (Except.ok.inj h)
    exact .same rfl rfl
  | actionCancel now =>
    obtain ⟨-, rfl⟩ := checked_some h
    exact .landed rfl nofun nofun nofun
  | actionRetry eta =>
    have hu := ok_of_map_some h
    obtain ⟨hf, rfl⟩ := actionRetry_ok hu
    refine ⟨?_, nofun⟩
    -- the one attempt that a manual retry gives
    show spare _ ≤ spare t + 1
    have h1 := spare_le { t with
      state := .pending, workerId := none, runnerId := none, taskError := none, progress := 0
      eta := eta }
    have h2 := le_spare t
    simp only at h1
    omega
  | unlink => cases h

theorem RowAct.spends {a : RowAct} {t t' : Task} (hst : a.starts = false)
    (h : a.run reg (some t) = .ok (some t')) : Spends a.byHand.toNat t t' := by
  change a.onTask reg t = .ok (some t') at h
  cases a with
  | user u => exact UserAct.spends h
  | assign worker uuid =>
    refine of_map_some (fun u hu => ?_) h
    obtain ⟨hp, rfl⟩ := claimRow_eq hu
    exact .queued (.inl hp) (.inr rfl) rfl
  | start now => cases hst
  | stuck =>
    obtain ⟨-, rfl⟩ := checked_some h
    exact .landed rfl nofun nofun nofun
  | waitChildren =>
    obtain ⟨-, rfl⟩ := checked_some h
    exact .landed rfl nofun nofun nofun
  | progress value =>
    obtain rfl := Option.some.inj (Except.ok.inj h)
    exact .same rfl rfl
  | done runner now result =>
    obtain ⟨-, rfl⟩ := checked_some h
    exact .landed rfl nofun nofun nofun
  | failure runner now exc traceback read =>
    refine of_map_some (fun u hu => ?_) h
    rcases handleFailure_cases hu with ⟨-, _, rfl⟩ | ⟨-, hu⟩
    · exact actionAutoRetry_spends
    · obtain ⟨-, rfl⟩ := checked_ok hu
      exact .landed rfl nofun nofun nofun
  | lostExecution runner worker now error =>
    refine of_map_some (fun u hu => ?_) h
    rcases handleLostExecution_cases hu with ⟨ha, hu⟩ | ⟨-, -, rfl⟩ | ⟨-, -, hu⟩
    · obtain ⟨-, rfl⟩ := checked_ok hu
      exact .queued (.inr ha) (.inl rfl) rfl
    · exact actionAutoRetry_spends
    · obtain ⟨-, rfl⟩ := checked_ok hu
      exact .landed rfl nofun nofun nofun
  | autoRetry now =>
    obtain rfl := Option.some.inj (Except.ok.inj h)
    exact actionAutoRetry_spends
  | unown =>
    obtain rfl := Option.some.inj (Except.ok.inj h)
    exact .same rfl rfl
  | lockWaiting =>
    obtain rfl := Option.some.inj (Except.ok.inj h)
    exact .refl t
  | move now m =>
    refine of_map_some (fun u hu => ?_) (x := match m with
      | .done result => actionDone now result t
      | .fail error => actionFail now error none t
      | .cancel => actionCancel now t) (by cases m <;> exact h)
    cases m with
    | done result =>
      obtain ⟨-, rfl⟩ := checked_ok hu
      exact .landed rfl nofun nofun nofun
    | fail error =>
      obtain ⟨-, rfl⟩ := checked_ok hu
      exact .landed rfl nofun nofun nofun
    | cancel =>
      obtain ⟨-, rfl⟩ := checked_ok hu
      exact .landed rfl nofun nofun nofun

/-! ## The statements of a transaction -/

theorem RowAct.run_some {a : RowAct} {t : Task} {o : Option Task} (he : a.edits = false)
    (h : a.run reg (some t) = .ok o) : ∃ t', o = some t' := by
  change a.onTask reg t = .ok o at h
  have one : ∀ {x : Except TaskError Task}, x.map some = .ok o → ∃ t', o = some t' := by
    intro x hm
    obtain ⟨u, -, heq⟩ := map_some_ok hm
    exact ⟨u, heq⟩
  cases a with
  | user u =>
    cases u with
    | create v => cases h
    | unlink => cases he
    | write v => cases he
    | lookupUniqueKey key => exact ⟨t, (Except.ok.inj h).symm⟩
    | storePhaseData vals => exact ⟨_, (Except.ok.inj h).symm⟩
    | enterPhase phase childIds => exact ⟨_, (Except.ok.inj h).symm⟩
    | actionCancel now => exact one h
    | actionRetry eta => exact one h
  | progress value => exact ⟨_, (Except.ok.inj h).symm⟩
  | autoRetry now => exact ⟨_, (Except.ok.inj h).symm⟩
  | unown => exact ⟨_, (Except.ok.inj h).symm⟩
  | lockWaiting => exact ⟨t, (Except.ok.inj h).symm⟩
  | move now m => cases m <;> exact one h
  | _ => exact one h

theorem runActs_some {acts : List RowAct} {b : Bool} {t : Task} {q : Bool × Option Task}
    (he : ∀ a ∈ acts, a.edits = false) (h : runActs reg acts (b, some t) = .ok q) :
    ∃ t', q.2 = some t' := by
  refine runActs_rel (R := fun o o' => (∃ t, o = some t) → ∃ t, o' = some t) (fun _ h => h)
    (fun h₁ h₂ h => h₂ (h₁ h)) ?_ h ⟨t, rfl⟩
  rintro a hm _ o' - hr ⟨t, rfl⟩
  exact RowAct.run_some (he a hm) hr

theorem runActs_spends {acts : List RowAct} {b : Bool} {t t' : Task} {q : Bool × Option Task}
    (he : ∀ a ∈ acts, a.edits = false) (hst : ∀ a ∈ acts, a.starts = false)
    (h : runActs reg acts (b, some t) = .ok q) (ht' : q.2 = some t') :
    Spends (acts.countP RowAct.byHand) t t' := by
  induction acts generalizing b t with
  | nil =>
    obtain rfl := Except.ok.inj h
    obtain rfl := Option.some.inj ht'
    exact .refl t
  | cons a acts ih =>
    obtain ⟨⟨b₁, o⟩, hp, hrest⟩ := runActs_cons h
    have ha : ∃ t₁, o = some t₁ ∧ Spends a.byHand.toNat t t₁ := by
      rcases RowAct.exec_run hp with ⟨-, hr, -⟩ | ⟨-, heq⟩
      · obtain ⟨t₁, rfl⟩ := RowAct.run_some (he a List.mem_cons_self) hr
        exact ⟨t₁, rfl, RowAct.spends (hst a List.mem_cons_self) hr⟩
      · obtain ⟨-, rfl⟩ := Prod.mk.inj heq
        refine ⟨t, rfl, ⟨?_, fun h => h⟩⟩
        omega
    obtain ⟨t₁, rfl, h1⟩ := ha
    have h2 := ih (fun a hm => he a (List.mem_cons_of_mem _ hm))
      (fun a hm => hst a (List.mem_cons_of_mem _ hm)) hrest
    rw [List.countP_cons, Nat.add_comm]
    have hb : (if a.byHand = true then 1 else 0) = a.byHand.toNat := by cases a.byHand <;> rfl
    rw [hb]
    exact h1.trans h2

theorem start_acts {x : Txn Tx TaskId Task} {a : RowAct}
    (hm : a ∈ x.act.acts reg x.snap x.locked k) (ha : a.starts = true) :
    ∃ now, x.act.acts reg x.snap x.locked k = [.start now] := by
  have hiss := stmts_issues (mem_acts.1 hm)
  obtain ⟨r, now, hact⟩ : ∃ r now, x.act = .actionStart r k now := by
    rcases hact : x.act <;> rw [hact] at hiss <;> cases hiss <;> try cases ha
    exact ⟨_, _, rfl⟩
  exact ⟨now, by rw [hact]; simp [Tx.acts, Tx.stmts]⟩

/-- The failure handler has read the row that it locks; one that retries the task does nothing else
to it. -/
theorem failure_acts {x : Txn Tx TaskId Task} {r : RunnerId} {now : ℕ} {exc : Exc} {tb : String}
    {read : Option Task} {t : Task} (ht : x.snap.row k = some t)
    (hm : .failure r now exc tb read ∈ x.act.acts reg x.snap x.locked k) :
    read = some t ∧ (retriesFailure exc t = true →
      x.act.acts reg x.snap x.locked k = [.failure r now exc tb (some t)]) := by
  have hiss := stmts_issues (mem_acts.1 hm)
  rcases hact : x.act <;> rw [hact] at hiss <;> cases hiss
  refine ⟨ht, fun hr => ?_⟩
  simp [Tx.acts, Tx.stmts, ht, hr]

/-! ## The count within the budget -/

/-- The task still has the budget `m`, and has not used more. -/
structure Within (m : ℤ) (t : Task) : Prop where
  max : t.maxRetries = m
  count : t.retryCount ≤ m

theorem Within.same {m : ℤ} {t t' : Task} (h : Within m t) (hm : t'.maxRetries = t.maxRetries)
    (hc : t'.retryCount = t.retryCount) : Within m t' :=
  ⟨hm.trans h.max, by rw [hc]; exact h.count⟩

theorem Within.autoRetry {m : ℤ} {t : Task} {eta : Option ℕ} (h : Within m t)
    (hlt : t.retryCount < t.maxRetries) : Within m (actionAutoRetry eta t) := by
  refine ⟨h.max, ?_⟩
  rw [h.max] at hlt
  exact hlt

theorem UserAct.within {m : ℤ} {u : UserAct} {t t' : Task} (he : (RowAct.user u).edits = false)
    (h : u.onTask t = .ok (some t')) (ht : Within m t) : Within m t' := by
  cases u with
  | create v => cases h
  | unlink => cases he
  | write v => cases he
  | lookupUniqueKey key =>
    obtain rfl := Option.some.inj (Except.ok.inj h)
    exact ht
  | storePhaseData vals =>
    obtain rfl := Option.some.inj (Except.ok.inj h)
    exact ht.same rfl rfl
  | enterPhase phase childIds =>
    obtain rfl := Option.some.inj (Except.ok.inj h)
    exact ht.same rfl rfl
  | actionCancel now =>
    obtain ⟨-, rfl⟩ := checked_some h
    exact ht.same rfl rfl
  | actionRetry eta =>
    have hu := ok_of_map_some h
    obtain ⟨-, rfl⟩ := actionRetry_ok hu
    exact ht.same rfl rfl

/-- A failure handler that retries the task has compared the count that it increments. -/
def Compared (a : RowAct) (t : Task) : Prop :=
  ∀ r now exc tb read, a = .failure r now exc tb read →
    retriesFailure exc (read.getD t) = true → read.getD t = t

theorem RowAct.within {m : ℤ} {a : RowAct} {t t' : Task} (he : a.edits = false)
    (hcmp : Compared a t) (hs : a.selects (some t) = true)
    (h : a.run reg (some t) = .ok (some t')) (ht : Within m t) : Within m t' := by
  change a.onTask reg t = .ok (some t') at h
  cases a with
  | user u => exact UserAct.within he h ht
  | assign worker uuid =>
    refine of_map_some (fun u hu => ?_) h
    obtain ⟨-, rfl⟩ := claimRow_eq hu
    exact ht.same rfl rfl
  | progress value =>
    obtain rfl := Option.some.inj (Except.ok.inj h)
    exact ht.same rfl rfl
  | unown =>
    obtain rfl := Option.some.inj (Except.ok.inj h)
    exact ht.same rfl rfl
  | lockWaiting =>
    obtain rfl := Option.some.inj (Except.ok.inj h)
    exact ht
  | autoRetry now =>
    obtain rfl := Option.some.inj (Except.ok.inj h)
    simp only [RowAct.selects, autoRetryable, Bool.and_eq_true, decide_eq_true_eq] at hs
    exact ht.autoRetry hs.2
  | failure runner now exc traceback read =>
    refine of_map_some (fun u hu => ?_) h
    rcases handleFailure_cases hu with ⟨hr, _, rfl⟩ | ⟨-, hu⟩
    · have hread := hcmp _ _ _ _ _ rfl hr
      rw [hread] at hr
      simp only [retriesFailure, decide_eq_true_eq] at hr
      exact ht.autoRetry hr.2
    · obtain ⟨-, rfl⟩ := checked_ok hu
      exact ht.same rfl rfl
  | lostExecution runner worker now error =>
    refine of_map_some (fun u hu => ?_) h
    rcases handleLostExecution_cases hu with ⟨-, hu⟩ | ⟨-, hr, rfl⟩ | ⟨-, -, hu⟩
    · obtain ⟨-, rfl⟩ := checked_ok hu
      exact ht.same rfl rfl
    · exact ht.autoRetry hr.2
    · obtain ⟨-, rfl⟩ := checked_ok hu
      exact ht.same rfl rfl
  | move now m =>
    cases m <;>
    · obtain ⟨-, rfl⟩ := checked_some h
      exact ht.same rfl rfl
  | _ =>
    obtain ⟨-, rfl⟩ := checked_some h
    exact ht.same rfl rfl

theorem within_acts {m : ℤ} {x : Txn Tx TaskId Task} {t t' : Task} {q : Bool × Option Task}
    (hrow : x.snap.row k = some t)
    (hc : ∀ a ∈ x.act.acts reg x.snap x.locked k, a.creates = false)
    (he : ∀ a ∈ x.act.acts reg x.snap x.locked k, a.edits = false)
    (h : runActs reg (x.act.acts reg x.snap x.locked k) (false, some t) = .ok q)
    (ht' : q.2 = some t') (ht : Within m t) : Within m t' := by
  by_cases hall : ∃ r now exc tb read, .failure r now exc tb read ∈
      x.act.acts reg x.snap x.locked k ∧ retriesFailure exc t = true
  · -- the handler that retries the task does so to the row that it has read
    obtain ⟨r, now, exc, tb, read, hm, hr⟩ := hall
    obtain ⟨rfl, hone⟩ := failure_acts hrow hm
    rw [hone hr] at h
    obtain ⟨q', hq, hrest⟩ := runActs_cons h
    obtain rfl := Except.ok.inj hrest
    rcases RowAct.exec_run hq with ⟨hs, hrun, -⟩ | ⟨-, rfl⟩
    · rw [ht'] at hrun
      refine RowAct.within rfl ?_ hs hrun ht
      rintro r' now' exc' tb' read' heq -
      obtain ⟨-, -, -, -, rfl⟩ := RowAct.failure.inj heq
      rfl
    · obtain rfl := Option.some.inj ht'
      exact ht
  · refine runActs_task (R := fun t t' => Within m t → Within m t') (fun _ h => h)
      (fun h₁ h₂ h => h₂ (h₁ h)) hc (fun a hm u u' hs hr => ?_) h ht' ht
    refine RowAct.within (he a hm) ?_ hs hr
    rintro r now exc tb read rfl hretry
    obtain ⟨rfl, -⟩ := failure_acts hrow hm
    exact absurd ⟨r, now, exc, tb, _, hm, hretry⟩ hall

/-! ## What a requeue counts -/

/-- What a statement other than a claim, a start and a manual retry makes of the count: a requeue
counts the attempt, unless the task had yet to start. -/
inductive Counts (t t' : Task) : Prop
  | kept (hs : t'.state = t.state) (hc : t'.retryCount = t.retryCount)
  | requeued (hs : t'.state = .pending) (h : t.state ≠ .cancelled)
      (hc : t'.retryCount =
        if t.state = .pending ∨ t.state = .assigned then t.retryCount else t.retryCount + 1)
  | ended (hs : t'.state = .cancelled)
  | advanced (h : t.state ≠ .cancelled ∧ ¬ (t.state = .pending ∨ t.state = .assigned))
      (h' : ¬ (t'.state = .pending ∨ t'.state = .assigned)) (hc : t'.retryCount = t.retryCount)

theorem Counts.trans {t₁ t₂ t₃ : Task} (h : Counts t₁ t₂) (h' : Counts t₂ t₃) :
    Counts t₁ t₃ := by
  cases h with
  | kept hs hc =>
    cases h' with
    | kept hs' hc' => exact .kept (hs'.trans hs) (hc'.trans hc)
    | requeued hs' hne hc' => exact .requeued hs' (hs ▸ hne) (by rw [hc', hs, hc])
    | ended hs' => exact .ended hs'
    | advanced hne hs' hc' => exact .advanced (hs ▸ hne) hs' (hc'.trans hc)
  | requeued hs hne hc =>
    cases h' with
    | kept hs' hc' => exact .requeued (hs'.trans hs) hne (hc'.trans hc)
    | requeued hs' _ hc' => exact .requeued hs' hne (by rw [hc', if_pos (.inl hs), hc])
    | ended hs' => exact .ended hs'
    | advanced hne' _ _ => exact absurd (.inl hs) hne'.2
  | ended hs =>
    cases h' with
    | kept hs' _ => exact .ended (hs'.trans hs)
    | requeued _ hne' _ => exact absurd hs hne'
    | ended hs' => exact .ended hs'
    | advanced hne' _ _ => exact absurd hs hne'.1
  | advanced hne hs hc =>
    cases h' with
    | kept hs' hc' => exact .advanced hne (by rw [hs']; exact hs) (hc'.trans hc)
    | requeued hs' _ hc' => exact .requeued hs' hne.1 (by rw [hc', if_neg hs, if_neg hne.2, hc])
    | ended hs' => exact .ended hs'
    | advanced _ hs' hc' => exact .advanced hne hs' (hc'.trans hc)

/-- Only a task that has started, and is not cancelled, waits, is done, fails or is stuck. -/
theorem advanced_from {st : TaskState} {t : Task}
    (hst : st = .stuck ∨ st = .waiting ∨ st = .done ∨ st = .failed)
    (h : st ∈ allowedTransitions t.state) :
    t.state ≠ .cancelled ∧ ¬ (t.state = .pending ∨ t.state = .assigned) := by
  revert h
  rcases hst with rfl | rfl | rfl | rfl <;> cases t.state <;> decide

theorem Counts.checked {st : TaskState} {t t' : Task}
    (hst : st = .stuck ∨ st = .waiting ∨ st = .done ∨ st = .failed)
    (h : st ∈ allowedTransitions t.state) (hs : t'.state = st)
    (hc : t'.retryCount = t.retryCount) : Counts t t' := by
  refine .advanced (advanced_from hst h) ?_ hc
  rw [hs]
  rcases hst with rfl | rfl | rfl | rfl <;> decide

theorem actionAutoRetry_counts {t : Task} {eta : Option ℕ}
    (h : t.state = .failed ∨ t.state = .running ∨ t.state = .stuck) :
    Counts t (actionAutoRetry eta t) := by
  refine .requeued rfl ?_ ?_
  · rcases h with h | h | h <;> rw [h] <;> decide
  · rw [if_neg (by rcases h with h | h | h <;> rw [h] <;> decide)]
    rfl

theorem UserAct.counts {u : UserAct} {t t' : Task} (hh : (RowAct.user u).byHand = false)
    (h : u.onTask t = .ok (some t')) : Counts t t' := by
  cases u with
  | create v => cases h
  | unlink => cases h
  | actionRetry eta => cases hh
  | lookupUniqueKey key =>
    obtain rfl := Option.some.inj (Except.ok.inj h)
    exact .kept rfl rfl
  | write v =>
    obtain rfl := Option.some.inj (Except.ok.inj h)
    exact .kept rfl rfl
  | storePhaseData vals =>
    obtain rfl := Option.some.inj (Except.ok.inj h)
    exact .kept rfl rfl
  | enterPhase phase childIds =>
    obtain rfl := Option.some.inj (Except.ok.inj h)
    exact .kept rfl rfl
  | actionCancel now =>
    obtain ⟨-, rfl⟩ := checked_some h
    exact .ended rfl

theorem RowAct.counts {a : RowAct} {t t' : Task} (hp : a.plain k = true)
    (hst : a.starts = false) (hh : a.byHand = false) (hs : a.selects (some t) = true)
    (h : a.run reg (some t) = .ok (some t')) : Counts t t' := by
  change a.onTask reg t = .ok (some t') at h
  cases a with
  | user u => exact UserAct.counts hh h
  | assign worker uuid => cases hp
  | start now => cases hst
  | stuck =>
    obtain ⟨hal, rfl⟩ := checked_some h
    exact .checked (.inl rfl) hal rfl rfl
  | waitChildren =>
    obtain ⟨hal, rfl⟩ := checked_some h
    exact .checked (.inr (.inl rfl)) hal rfl rfl
  | progress value =>
    obtain rfl := Option.some.inj (Except.ok.inj h)
    exact .kept rfl rfl
  | done runner now result =>
    obtain ⟨hal, rfl⟩ := checked_some h
    exact .checked (.inr (.inr (.inl rfl))) hal rfl rfl
  | failure runner now exc traceback read =>
    refine of_map_some (fun u hu => ?_) h
    have hf := (finalizable_iff.1 hs).1
    rcases handleFailure_cases hu with ⟨-, _, rfl⟩ | ⟨-, hu⟩
    · exact actionAutoRetry_counts (.inr (by simpa [finalStates] using hf))
    · obtain ⟨hal, rfl⟩ := checked_ok hu
      exact .checked (.inr (.inr (.inr rfl))) hal rfl rfl
  | lostExecution runner worker now error =>
    refine of_map_some (fun u hu => ?_) h
    have hf := (finalizable_iff.1 hs).1
    rcases handleLostExecution_cases hu with ⟨ha, hu⟩ | ⟨ha, -, rfl⟩ | ⟨-, -, hu⟩
    · obtain ⟨-, rfl⟩ := checked_ok hu
      exact .requeued rfl (by rw [ha]; decide) (by rw [if_pos (.inr ha)])
    · exact actionAutoRetry_counts (.inr (by simpa [inFlightStates, ha] using hf))
    · obtain ⟨hal, rfl⟩ := checked_ok hu
      exact .checked (.inr (.inr (.inr rfl))) hal rfl rfl
  | autoRetry now =>
    obtain rfl := Option.some.inj (Except.ok.inj h)
    exact actionAutoRetry_counts (.inl (autoRetryable_failed hs))
  | unown =>
    obtain rfl := Option.some.inj (Except.ok.inj h)
    exact .kept rfl rfl
  | lockWaiting =>
    obtain rfl := Option.some.inj (Except.ok.inj h)
    exact .kept rfl rfl
  | move now m =>
    cases m with
    | done result =>
      obtain ⟨hal, rfl⟩ := checked_some h
      exact .checked (.inr (.inr (.inl rfl))) hal rfl rfl
    | fail error =>
      obtain ⟨hal, rfl⟩ := checked_some h
      exact .checked (.inr (.inr (.inr rfl))) hal rfl rfl
    | cancel =>
      obtain ⟨-, rfl⟩ := checked_some h
      exact .ended rfl

/-! ## Steps -/

theorem stmtsOn_commit {i : ℕ} {x : Txn Tx TaskId Task} (hx : s.db.txns i = some x) :
    s.stmtsOn reg k (.db (.commit i)) = x.act.acts reg x.snap x.locked k := by
  simp [Sys.stmtsOn, hx]

theorem start_exec {now : ℕ} {t t' : Task} {q : Bool × Option Task}
    (h : runActs reg [.start now] (false, some t) = .ok q) (ht' : q.2 = some t') :
    t.state = .assigned ∧ t'.state = .running ∧ t'.retryCount = t.retryCount := by
  obtain ⟨q', hq, hrest⟩ := runActs_cons h
  obtain rfl := Except.ok.inj hrest
  have hrun := RowAct.exec_selected rfl hq
  rw [ht'] at hrun
  obtain ⟨hst, rfl⟩ := checked_some hrun
  exact ⟨of_allowed_running hst, rfl, rfl⟩

theorem Unedited.there {t : Task} (hi : Inv reg s) (he : Unedited reg k s ev)
    (h : s.step reg ev = some s') (ht : s.db.cur.row k = some t) :
    ∃ t', s'.db.cur.row k = some t' := by
  rcases Sys.row_run hi h k with hsame | ⟨i, x, b, rfl, hx, hrow, hrun⟩
  · exact ⟨t, hsame.trans ht⟩
  · unfold Unedited at he
    rw [stmtsOn_commit hx] at he
    rw [ht] at hrun
    exact runActs_some he hrun

theorem Unedited.within {m : ℤ} {t t' : Task} (hi : Inv reg s) (hd : Drawn s)
    (he : Unedited reg k s ev) (h : s.step reg ev = some s') (ht : s.db.cur.row k = some t)
    (ht' : s'.db.cur.row k = some t') (hw : Within m t) : Within m t' := by
  rcases Sys.row_run hi h k with hsame | ⟨i, x, b, rfl, hx, hrow, hrun⟩
  · rw [hsame, ht] at ht'
    obtain rfl := Option.some.inj ht'
    exact hw
  · unfold Unedited at he
    rw [stmtsOn_commit hx] at he
    rw [ht] at hrun hrow
    exact within_acts hrow (hd.no_create hx hrow) he hrun ht' hw

/-- A step pays for a start from what is spare, or from a manual retry. -/
theorem Unedited.spare {t t' : Task} (hi : Inv reg s) (he : Unedited reg k s ev)
    (h : s.step reg ev = some s') (ht : s.db.cur.row k = some t)
    (ht' : s'.db.cur.row k = some t') :
    (s.entersRunning reg k ev : ℤ) + spare t' ≤ spare t + s.manualRetries reg k ev := by
  have hone : s.entersRunning reg k ev ≤ 1 := by
    unfold Sys.entersRunning; split_ifs <;> omega
  have hzero : (t'.state = .running → t.state = .running) → s.entersRunning reg k ev = 0 := by
    intro hr
    unfold Sys.entersRunning
    rw [if_neg]
    rw [h, Option.bind_some, ht, ht', Option.map_some, Option.map_some]
    rintro ⟨h1, h2⟩
    exact h1 (congrArg some (hr (Option.some.inj h2)))
  rcases Sys.row_run hi h k with hsame | ⟨i, x, b, rfl, hx, hrow, hrun⟩
  · rw [hsame, ht] at ht'
    obtain rfl := Option.some.inj ht'
    rw [hzero fun h => h]
    omega
  · unfold Unedited at he
    unfold Sys.manualRetries
    rw [stmtsOn_commit hx] at he ⊢
    rw [ht] at hrun
    by_cases hst : ∃ a ∈ x.act.acts reg x.snap x.locked k, a.starts = true
    · obtain ⟨a, hm, ha⟩ := hst
      obtain ⟨now, hacts⟩ := start_acts hm ha
      rw [hacts] at hrun
      obtain ⟨h1, h2, h3⟩ := start_exec hrun ht'
      rw [spare_of_queued (.inr h1), spare_of_started (by rw [h2]; decide) (by rw [h2]; decide), h3]
      omega
    · have hsp := runActs_spends he (fun a hm => Bool.eq_false_iff.2 fun ha => hst ⟨a, hm, ha⟩)
        hrun ht'
      rw [hzero hsp.running]
      have := hsp.spare
      omega

/-- A step without a manual retry that requeues the task counts an attempt, unless the task had yet
to start. -/
theorem requeue_counts {t t' : Task} (hi : Inv reg s) (hd : Drawn s)
    (h : s.step reg ev = some s') (hman : s.manualRetries reg k ev = 0)
    (ht : s.db.cur.row k = some t) (ht' : s'.db.cur.row k = some t') (hne : t.state ≠ .pending)
    (hp : t'.state = .pending) :
    t'.retryCount = if t.state = .assigned then t.retryCount else t.retryCount + 1 := by
  have fin : Counts t t' → t'.retryCount =
      if t.state = .assigned then t.retryCount else t.retryCount + 1 := by
    intro hcnt
    cases hcnt with
    | kept hs hc => exact absurd (hs.symm.trans hp) hne
    | requeued hs _ hc =>
      rw [hc]
      simp only [hne, false_or]
    | ended hs => rw [hs] at hp; cases hp
    | advanced _ hs _ => exact absurd (.inl hp) hs
  rcases Sys.row_cases hi.wf h k with hkept | ⟨r, i, x, c, rank, uuid, -, -, -, -, -, u, hu, hup, -⟩
  swap
  · obtain rfl := Option.some.inj (ht.symm.trans hu)
    exact absurd hup hne
  rcases Sys.row_run hi h k with hsame | ⟨i, x, b, rfl, hx, hrow, hrun⟩
  · rw [hsame, ht] at ht'
    obtain rfl := Option.some.inj ht'
    exact absurd hp hne
  · unfold Sys.manualRetries at hman
    rw [stmtsOn_commit hx] at hman
    rw [ht] at hrun hrow
    by_cases hst : ∃ a ∈ x.act.acts reg x.snap x.locked k, a.starts = true
    · obtain ⟨a, hm, ha⟩ := hst
      obtain ⟨now, hacts⟩ := start_acts hm ha
      rw [hacts] at hrun
      rw [(start_exec hrun ht').2.1] at hp
      cases hp
    · by_cases hcl : ∃ c rank uuid, x.act = .claimTask c rank uuid
      · -- a claim leaves the task as it is, or assigned
        have hclaim : t' = t ∨ (t.state = .pending ∧ t'.state = .assigned) := by
          obtain ⟨c, rank, uuid, hact⟩ := hcl
          refine runActs_task
            (R := fun t t' => t' = t ∨ (t.state = .pending ∧ t'.state = .assigned))
            (fun _ => .inl rfl) ?_ (hd.no_create hx hrow) (fun a hm u u' hs hr => ?_) hrun ht'
          · rintro t₁ t₂ t₃ (rfl | ⟨h1, h2⟩) (rfl | ⟨h3, h4⟩)
            · exact .inl rfl
            · exact .inr ⟨h3, h4⟩
            · exact .inr ⟨h1, h2⟩
            · rw [h2] at h3; cases h3
          · rw [hact] at hm
            obtain ⟨v, -, hv⟩ := List.mem_map.1 (mem_acts.1 hm)
            obtain ⟨-, rfl⟩ := Prod.mk.inj hv
            have hw := ok_of_map_some hr
            obtain ⟨hwp, rfl⟩ := claimRow_eq hw
            exact .inr ⟨hwp, rfl⟩
        rcases hclaim with rfl | ⟨h1, -⟩
        · exact absurd hp hne
        · exact absurd h1 hne
      · refine fin (runActs_task (R := Counts) (fun _ => .kept rfl rfl) .trans
          (hd.no_create hx hrow) (fun a hm u u' hs hr => ?_) hrun ht')
        have hplain : a.plain k = true :=
          plain_acts (fun c rank uuid heq => hcl ⟨c, rank, uuid, heq⟩) a hm
        exact RowAct.counts hplain (Bool.eq_false_iff.2 fun ha => hst ⟨a, hm, ha⟩)
          (Bool.eq_false_iff.2 (List.countP_eq_zero.1 hman a hm)) hs hr

/-! ## The bound -/

/-- **Retry budget.** A task is created with a budget and never edited. In every run, `retry_count`
stays within `max_retries`; the task enters `running` at most once more than its budget and the
manual retries allow; and an automatic requeue counts one attempt if the task had started, and none
if it had not. -/
theorem retry_budget {s₀ : Sys} {es₀ es : List Ev} {v : TaskVals} (h0 : Start s₀)
    (hp₀ : Path (Sys.step reg) anyStep s₀ es₀ s) (hk : s.db.cur.row k = some v.create)
    (hv : 0 ≤ v.maxRetries) (hp : Path (Sys.step reg) (Unedited reg k) s es s') :
    ∃ t, s'.db.cur.row k = some t ∧ t.maxRetries = v.maxRetries ∧ t.retryCount ≤ t.maxRetries ∧
      (total (Sys.step reg) (Sys.entersRunning reg k) s es : ℤ) ≤
        1 + v.maxRetries + total (Sys.step reg) (Sys.manualRetries reg k) s es ∧
      ∀ ev s'' t', s'.step reg ev = some s'' → s''.db.cur.row k = some t' →
        s'.manualRetries reg k ev = 0 → t.state ≠ .pending → t'.state = .pending →
          t'.retryCount = if t.state = .assigned then t.retryCount else t.retryCount + 1 := by
  -- the invariant of the run: the task is there, within its budget
  let I : Sys → Prop := fun s => Inv reg s ∧ Drawn s ∧
    ∃ t, s.db.cur.row k = some t ∧ Within v.maxRetries t
  have hI0 : I s := ⟨h0.inv.path hp₀, Drawn.path h0 hp₀, v.create, hk, rfl, hv⟩
  have hstep : ∀ s ev s', I s → Unedited reg k s ev → s.step reg ev = some s' → I s' ∧
      (s.entersRunning reg k ev : ℤ) + (s'.db.cur.row k).elim 0 spare ≤
        (s.db.cur.row k).elim 0 spare + s.manualRetries reg k ev := by
    rintro s ev s' ⟨hi, hd, t, ht, hw⟩ he h
    obtain ⟨t', ht'⟩ := he.there hi h ht
    refine ⟨⟨hi.step h, hd.step hi h, t', ht', he.within hi hd h ht ht' hw⟩, ?_⟩
    rw [ht, ht']
    exact he.spare hi h ht ht'
  obtain ⟨hi, hd, t, ht, hw⟩ := hp.inv (fun s ev s' hI he h => (hstep s ev s' hI he h).1) hI0
  have hpot := hp.total_potential hstep hI0
  refine ⟨t, ht, hw.max, by rw [hw.max]; exact hw.count, ?_, fun ev s'' t' h ht' hman hne hpend =>
    requeue_counts hi hd h hman ht ht' hne hpend⟩
  rw [hk, ht] at hpot
  simp only [Option.elim_some] at hpot
  rw [spare_of_queued (t := v.create) (.inl rfl)] at hpot
  have h1 := le_spare t
  have h2 := hw.count
  have h3 : v.create.retryCount = 0 := rfl
  omega

/-- The failure handler retries the task, which is claimed and started once more. -/
def retriedOnce : List Ev := failedOnce ++ [
  .db (.commit 3),
  .db (.begin (.claimTask (exportClaim 1) id fun _ => 8)), .db (.lock 4), .db (.commit 4),
  .db (.begin (.actionStart 8 1 105)), .db (.lock 5), .db (.commit 5)]

theorem retriedOnce_budget : ∃ s' t, Path (Sys.step []) (Unedited [] 1) (Sys.init oneTask)
      retriedOnce s' ∧ s'.db.cur.row 1 = some t ∧ t.retryCount ≤ t.maxRetries ∧
    (total (Sys.step []) (Sys.entersRunning [] 1) (Sys.init oneTask) retriedOnce : ℤ) ≤
      1 + exportVals.maxRetries +
        total (Sys.step []) (Sys.manualRetries [] 1) (Sys.init oneTask) retriedOnce ∧
    total (Sys.step []) (Sys.entersRunning [] 1) (Sys.init oneTask) retriedOnce = 2 := by
  have hp : Path (Sys.step []) (Unedited [] 1) (Sys.init oneTask) retriedOnce _ :=
    path_reached (by decide +kernel)
  obtain ⟨t, ht, -, hle, htotal, -⟩ :=
    retry_budget (v := exportVals) (Start.init (by decide)) (.nil _) rfl (by decide) hp
  exact ⟨_, t, hp, ht, hle, htotal, by decide +kernel⟩

end GenericTaskQueue
