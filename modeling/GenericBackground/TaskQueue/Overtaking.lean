import GenericBackground.TaskQueue.RetryBudget
import GenericBackground.TaskQueue.SkipLocked
import Mathlib.Data.Finset.Card

/-!
# Bounded overtaking

A task that is pending waits for the tasks that stand ahead of it, and for no others. A claim that
commits passes over a task if its query has returned the task, no other transaction has held the row
when the claim came to it, and the claim has not taken it. Such a claim has taken its full `limit`,
and all that it has taken stood ahead (`overtaken_ahead`). So the tasks ahead of a place in the
queue are a potential: being passed over there `n` times by claims of limit `l` costs `n * l` of
them (`bounded_overtaking`), whatever happens to the task or to the others in between.
-/

namespace GenericTaskQueue

open RowStore Lts Query

structure Place where
  id : TaskId
  priority : ℤ
  dateCreated : ℕ
  deriving DecidableEq, Repr

def Task.place (t : Task) : Place := ⟨t.id, t.priority, t.dateCreated⟩

variable {reg : Registry} {s s' : Sys} {ev : Ev} {i : ℕ} {x : Txn Tx TaskId Task} {u : Place}

/-! ## Tasks ahead, and claims that pass over -/

/-- A pending task that stands ahead of `u`, or level with it. -/
def standsAhead (u : Place) (t : Task) : Bool :=
  t.state = .pending ∧ t.id ≠ u.id ∧
    (t.priority < u.priority ∨ t.priority = u.priority ∧ t.dateCreated ≤ u.dateCreated)

def Sys.ahead (u : Place) (s : Sys) : Finset TaskId :=
  s.db.cur.keys.toFinset.filter fun k => (s.db.cur.row k).any (standsAhead u)

/-- The tasks that come to stand ahead of `u`: created, put back, or edited. -/
def Sys.cutsIn (reg : Registry) (u : Place) (s : Sys) (ev : Ev) : ℕ :=
  ((s.step reg ev).elim ∅ fun s' => s'.ahead u \ s.ahead u).card

/-- The claim has found the task at `u` free among what its query returns, and has not taken it. -/
def passesOver (u : Place) (x : Txn Tx TaskId Task) : Bool :=
  match x.act with
  | .claimTask c rank _ => u ∈ (claimSelect c (ranked rank x.snap)).map Task.place ∧
    u.id ∉ x.skipped ∧ u.id ∉ x.locked
  | _ => false

/-- The limit of a claim that commits and passes over `u`. -/
def Sys.overtakes (u : Place) (s : Sys) : Ev → ℕ
  | .db (.commit i) =>
    (s.db.txns i).elim 0 fun x => if passesOver u x then x.act.limit.getD 0 else 0
  | _ => 0

theorem mem_ahead {k : TaskId} (hok : s.db.cur.Ok) :
    k ∈ s.ahead u ↔ ∃ t, s.db.cur.row k = some t ∧ standsAhead u t = true := by
  unfold Sys.ahead
  rw [Finset.mem_filter, List.mem_toFinset, Option.any_eq_true]
  refine ⟨fun h => h.2, fun h => ⟨?_, h⟩⟩
  obtain ⟨t, ht, -⟩ := h
  exact hok.present k t ht

/-- A claim that passes over a task takes its full limit of tasks ahead. -/
theorem overtaken_ahead {s₀ : Sys} {es : List Ev} (h0 : Start s₀)
    (hp : Path (Sys.step reg) anyStep s₀ es s) (hx : s.db.txns i = some x)
    (hc : s.step reg (.db (.commit i)) = some s') (hpass : passesOver u x = true) :
    x.act.limit = some x.locked.length ∧
      ∀ k ∈ x.locked, k ∈ s.ahead u ∧ k ∉ s'.ahead u := by
  have hi : Inv reg s := h0.inv.path hp
  unfold passesOver at hpass
  split at hpass
  · next c rank uuid hact =>
    obtain ⟨hplace, hskip, hlock⟩ := of_decide_eq_true hpass
    obtain ⟨t, hsel, rfl⟩ := List.mem_map.1 hplace
    have hlocks := claim_locks h0 hp hx hact hc
    have hmem : t ∈ (claimSelect c (ranked rank x.snap)).filter (·.id ∉ x.skipped) :=
      List.mem_filter.2 ⟨hsel, decide_eq_true hskip⟩
    have hnot : t ∉ taken c (ranked rank x.snap) x.skipped := by
      intro hm
      refine hlock (List.mem_reverse.1 ?_)
      rw [hlocks]
      exact List.mem_map_of_mem hm
    obtain ⟨hlen, hbefore⟩ := take_before (List.Pairwise.filter _
      (List.pairwise_insertionSort keyLE _)) hmem hnot
    refine ⟨?_, fun k hk => ?_⟩
    · rw [hact, ← List.length_reverse, hlocks, List.length_map]
      exact congrArg some hlen.symm
    · obtain ⟨v, hv, rfl⟩ : ∃ t ∈ taken c (ranked rank x.snap) x.skipped, t.id = k :=
        List.mem_map.1 (hlocks ▸ List.mem_reverse.2 hk)
      obtain ⟨hrow, hrow'⟩ := claim_assigns h0 hp hx hact hc hv
      have hpend := (claimable_iff.1 (claimSelect_pending (mem_taken hv)).2).1
      constructor
      · refine (mem_ahead hi.wf.cur).2 ⟨v, hrow, decide_eq_true ⟨hpend, ?_, hbefore v hv⟩⟩
        exact fun heq => hlock (heq ▸ hk)
      · rw [mem_ahead (hi.step hc).wf.cur]
        rintro ⟨t', ht', ha⟩
        obtain rfl := Option.some.inj (hrow'.symm.trans ht')
        cases (of_decide_eq_true ha).1
  · cases hpass

/-! ## Who comes to stand ahead -/

/-- The statements that put a task into the queue, or change its place there. -/
def RowAct.queues : RowAct → Bool
  | .user (.create _) => true
  | .user (.write _) => true
  | .user (.actionRetry _) => true
  | .failure _ _ _ _ _ => true
  | .lostExecution _ _ _ _ => true
  | .autoRetry _ => true
  | _ => false

/-- The task has not come into the queue, and has kept its place. -/
def KeepsPlace (t t' : Task) : Prop :=
  t'.state = .pending → t.state = .pending ∧ t'.id = t.id ∧ t'.priority = t.priority ∧
    t'.dateCreated = t.dateCreated

theorem KeepsPlace.ahead {t t' : Task} (h : KeepsPlace t t') (ha : standsAhead u t' = true) :
    standsAhead u t = true := by
  obtain ⟨hp, hne, hle⟩ := of_decide_eq_true ha
  obtain ⟨hp', hid, hprio, hdate⟩ := h hp
  rw [hprio, hdate] at hle
  exact decide_eq_true ⟨hp', hid ▸ hne, hle⟩

theorem RowAct.keepsPlace {a : RowAct} {t t' : Task} (hq : a.queues = false)
    (h : a.run reg (some t) = .ok (some t')) : KeepsPlace t t' := by
  change a.onTask reg t = .ok (some t') at h
  cases a with
  | user v =>
    cases v with
    | create v => cases h
    | write v => cases hq
    | actionRetry eta => cases hq
    | unlink => cases h
    | actionCancel now =>
      obtain ⟨-, rfl⟩ := checked_some h
      exact fun hp => by cases hp
    | _ =>
      obtain rfl := Option.some.inj (Except.ok.inj h)
      exact fun hp => ⟨hp, rfl, rfl, rfl⟩
  | assign worker uuid =>
    obtain ⟨-, rfl⟩ := claimRow_eq (ok_of_map_some h)
    exact fun hp => by cases hp
  | failure runner now exc traceback read => cases hq
  | lostExecution runner worker now error => cases hq
  | autoRetry now => cases hq
  | move now m =>
    cases m <;> obtain ⟨-, rfl⟩ := checked_some h <;> exact fun hp => by cases hp
  | start now => obtain ⟨-, rfl⟩ := checked_some h; exact fun hp => by cases hp
  | stuck => obtain ⟨-, rfl⟩ := checked_some h; exact fun hp => by cases hp
  | waitChildren => obtain ⟨-, rfl⟩ := checked_some h; exact fun hp => by cases hp
  | done runner now result => obtain ⟨-, rfl⟩ := checked_some h; exact fun hp => by cases hp
  | _ =>
    obtain rfl := Option.some.inj (Except.ok.inj h)
    exact fun hp => ⟨hp, rfl, rfl, rfl⟩

/-- A task comes to stand ahead only where a statement creates, edits, retries or requeues it. -/
theorem cutsIn_queues {k : TaskId} (hi : Inv reg s) (h : s.step reg ev = some s')
    (hk : k ∈ s'.ahead u \ s.ahead u) : ∃ a ∈ s.stmtsOn reg k ev, a.queues = true := by
  rw [Finset.mem_sdiff, mem_ahead (hi.step h).wf.cur, mem_ahead hi.wf.cur] at hk
  obtain ⟨⟨t', ht', ha⟩, hnot⟩ := hk
  rcases Sys.row_run hi h k with hsame | ⟨i, x, b, rfl, hx, hrow, hrun⟩
  · exact absurd ⟨t', hsame ▸ ht', ha⟩ hnot
  by_contra hno
  push Not at hno
  refine hnot (runActs_rel (R := fun o o' => (∃ t', o' = some t' ∧ standsAhead u t' = true) →
    ∃ t, o = some t ∧ standsAhead u t = true) (fun _ h => h) (fun h₁ h₂ h => h₁ (h₂ h)) ?_ hrun
    ⟨t', ht', ha⟩)
  rintro a hm o o' - hr ⟨t', rfl, ha⟩
  have hq : a.queues = false :=
    Bool.eq_false_iff.2 (hno a (by rw [stmtsOn_commit hx]; exact hm))
  rcases o with _ | t
  · exact (RowAct.run_none (by cases a with
      | user v => cases v <;> first | rfl | cases hq
      | _ => rfl) hr).elim
  · exact ⟨t, rfl, (RowAct.keepsPlace hq hr).ahead ha⟩

/-! ## The bound -/

theorem overtakes_paid {s₀ : Sys} {es : List Ev} (h0 : Start s₀)
    (hp : Path (Sys.step reg) anyStep s₀ es s) (h : s.step reg ev = some s') :
    s.overtakes u ev + (s'.ahead u).card ≤ (s.ahead u).card + s.cutsIn reg u ev := by
  have hi : Inv reg s := h0.inv.path hp
  have hcut : s.cutsIn reg u ev = (s'.ahead u \ s.ahead u).card := by
    unfold Sys.cutsIn
    rw [h, Option.elim_some]
  -- what is no longer ahead
  have hleft : s.overtakes u ev ≤ (s.ahead u \ s'.ahead u).card := by
    by_cases hz : s.overtakes u ev = 0
    · omega
    unfold Sys.overtakes at hz ⊢
    split at hz
    · next i =>
      rcases hx : s.db.txns i with _ | x
      · rw [hx] at hz
        exact absurd rfl hz
      · rw [hx] at hz
        simp only [Option.elim_some] at hz ⊢
        split_ifs at hz ⊢ with hpass
        · obtain ⟨hlim, hall⟩ := overtaken_ahead h0 hp hx h hpass
          rw [hlim, Option.getD_some, ← List.toFinset_card_of_nodup (hi.wf.txn i x hx).nodup]
          refine Finset.card_le_card fun k hk => ?_
          rw [Finset.mem_sdiff]
          exact hall k (List.mem_toFinset.1 hk)
        · exact absurd rfl hz
    · exact absurd rfl hz
  have h1 := Finset.card_sdiff_add_card_inter (s'.ahead u) (s.ahead u)
  have h2 := Finset.card_sdiff_add_card_inter (s.ahead u) (s'.ahead u)
  rw [Finset.inter_comm] at h2
  omega

/-- **Bounded overtaking.** In every run, a claim that passes over a task takes its full limit of
tasks, all of which have stood ahead of it and do so no more. So all such claims together take no
more tasks than stood ahead of it at the start and have come to stand ahead of it since, less those
that still stand there; and a task comes to stand ahead only by being created, edited, retried or
requeued. -/
theorem bounded_overtaking {s₀ : Sys} {es₀ es : List Ev} (h0 : Start s₀)
    (hp₀ : Path (Sys.step reg) anyStep s₀ es₀ s) (hp : Path (Sys.step reg) anyStep s es s')
    (u : Place) :
    total (Sys.step reg) (Sys.overtakes u) s es + (s'.ahead u).card ≤
      (s.ahead u).card + total (Sys.step reg) (Sys.cutsIn reg u) s es ∧
    (∀ s₁ i s₂ x, Takes (Sys.step reg) s es s₁ (.db (.commit i)) s₂ → s₁.db.txns i = some x →
      passesOver u x = true → x.act.limit = some x.locked.length ∧
        ∀ k ∈ x.locked, k ∈ s₁.ahead u ∧ k ∉ s₂.ahead u) ∧
    ∀ s₁ ev s₂, Takes (Sys.step reg) s es s₁ ev s₂ → ∀ k ∈ s₂.ahead u \ s₁.ahead u,
      ∃ a ∈ s₁.stmtsOn reg k ev, a.queues = true := by
  have before : ∀ {s₁ ev s₂}, Takes (Sys.step reg) s es s₁ ev s₂ →
      (∃ pre, Path (Sys.step reg) anyStep s₀ pre s₁) ∧ s₁.step reg ev = some s₂ := by
    intro s₁ ev s₂ ht
    obtain ⟨⟨pre, hpre⟩, -, hs⟩ := hp.takes ht
    exact ⟨⟨_, hp₀.append hpre⟩, hs⟩
  refine ⟨?_, fun s₁ i s₂ x ht hx hpass => ?_, fun s₁ ev s₂ ht k hk => ?_⟩
  · have hstep : ∀ s ev s', (∃ es, Path (Sys.step reg) anyStep s₀ es s) → anyStep s ev →
        s.step reg ev = some s' → (∃ es, Path (Sys.step reg) anyStep s₀ es s') ∧
          (s.overtakes u ev : ℤ) + (s'.ahead u).card ≤
            (s.ahead u).card + s.cutsIn reg u ev := by
      rintro s ev s' ⟨es, hes⟩ hok h
      have := overtakes_paid (u := u) h0 hes h
      exact ⟨⟨_, hes.concat hok h⟩, by omega⟩
    have hpot := hp.total_potential (f := fun s => ((s.ahead u).card : ℤ)) hstep ⟨es₀, hp₀⟩
    omega
  · obtain ⟨⟨pre, hpre⟩, hs⟩ := before ht
    exact overtaken_ahead h0 hpre hx hs hpass
  · obtain ⟨⟨pre, hpre⟩, hs⟩ := before ht
    exact cutsIn_queues (h0.inv.path hpre) hs hk

def lastExport : Place := ⟨3, 5, 30⟩

/-- Two claims have passed over the last task, and none is ahead of it any more. -/
theorem claimsMeet_overtake : ∃ s', Path (Sys.step []) anyStep (Sys.init exportQueue)
      (claimsMeet ++ [.db (.commit 1)]) s' ∧
    total (Sys.step []) (Sys.overtakes lastExport) (Sys.init exportQueue)
      (claimsMeet ++ [.db (.commit 1)]) = 2 ∧ s'.ahead lastExport = ∅ := by
  have hp : Path (Sys.step []) anyStep (Sys.init exportQueue) (claimsMeet ++ [.db (.commit 1)]) _ :=
    path_reached (by decide +kernel)
  have htotal : total (Sys.step []) (Sys.overtakes lastExport) (Sys.init exportQueue)
      (claimsMeet ++ [.db (.commit 1)]) = 2 := by decide +kernel
  have hcut : total (Sys.step []) (Sys.cutsIn [] lastExport) (Sys.init exportQueue)
      (claimsMeet ++ [.db (.commit 1)]) = 0 := by decide +kernel
  have hahead : ((Sys.init exportQueue).ahead lastExport).card = 2 := by decide +kernel
  have hbound := (bounded_overtaking (Start.init (by decide)) (.nil _) hp lastExport).1
  exact ⟨_, hp, htotal, Finset.card_eq_zero.1 (by omega)⟩

end GenericTaskQueue
