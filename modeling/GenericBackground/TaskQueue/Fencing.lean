import GenericBackground.TaskQueue.System
import Mathlib.Algebra.GroupWithZero.Nat
import Mathlib.Algebra.Order.BigOperators.Group.List
import Mathlib.Algebra.Order.Group.Nat

/-!
# At most one outcome per claim

A claim stamps its row with a new runner id. The final writes of the task thread (`action_done`,
`action_fail`, `_action_auto_retry`) carry that id, and a recovery of a lost execution carries the
id that it found; both lock the row and check that it still has that id and is in flight
(`_acquire_finalization`). So the id is a fencing token (`Lts.Fenced`): fresh until the claim that
stamps it commits, live as long as a row is in flight under it, spent from then on. Every write
that carries it uses it, and leaves it spent.
-/

namespace GenericTaskQueue

open RowStore Lts

variable {reg : Registry} {s s' : Sys} {ev : Ev} {r : RunnerId}

/-- A final write of the thread with runner `r`, or a recovery that captured `r`. -/
def RowAct.settles (r : RunnerId) : RowAct → Bool
  | .done runner _ _ => runner = r
  | .failure runner _ _ _ _ => runner = r
  | .lostExecution runner _ _ _ => runner = some r
  | _ => false

def RowAct.recovers : RowAct → Bool
  | .lostExecution _ _ _ _ => true
  | _ => false

/-- By how much a statement raises the task's `retry_count`. -/
def RowAct.retries (reg : Registry) (a : RowAct) (o : Option Task) : ℕ :=
  match a.run reg o with
  | .ok (some t) => (t.retryCount - o.elim 0 Task.retryCount).toNat
  | _ => 0

/-- The sum of `weight` over the statements that settle `r` and go through. -/
def settled (reg : Registry) (r : RunnerId) (weight : RowAct → Option Task → ℕ) :
    List RowAct → Bool × Option Task → ℕ
  | [], _ => 0
  | a :: acts, p => (if a.settles r ∧ a.selects p.2 then weight a p.2 else 0) +
      match a.exec reg p with
      | .ok q => settled reg r weight acts q
      | .error _ => 0

/-- The same over all rows of a transaction that commits. -/
def Sys.settled (reg : Registry) (r : RunnerId) (weight : RowAct → Option Task → ℕ) (s : Sys) :
    Ev → ℕ
  | .db (.commit i) => (s.db.txns i).elim 0 fun x => (x.locked.map fun k =>
      GenericTaskQueue.settled reg r weight (x.act.acts reg x.snap x.locked k)
        (false, x.snap.row k)).sum
  | _ => 0

/-- How many changes a step commits under `r`. -/
def Sys.outcomes (reg : Registry) (r : RunnerId) : Sys → Ev → ℕ := Sys.settled reg r fun _ _ => 1

def Sys.retries (reg : Registry) (r : RunnerId) : Sys → Ev → ℕ :=
  Sys.settled reg r (RowAct.retries reg)

/-! ## One row -/

/-- The row is under `r`, and running or stuck; for recovery it may also be assigned. -/
def OwnedBy (r : RunnerId) (a : RowAct) (o : Option Task) : Prop :=
  ∃ t, o = some t ∧ t.runnerId = some r ∧
    (t.state ∈ finalStates ∨ a.recovers = true ∧ t.state = .assigned)

theorem settles_held {a : RowAct} {o : Option Task} (ha : a.settles r = true)
    (hs : a.selects o = true) : OwnedBy r a o := by
  rcases o with _ | t
  · cases a <;> first | cases ha | cases hs
  refine ⟨t, rfl, ?_⟩
  cases a with
  | done runner now result =>
    obtain rfl := of_decide_eq_true ha
    obtain ⟨h1, h2, -⟩ := finalizable_iff.1 hs
    exact ⟨h2 _ rfl, .inl h1⟩
  | failure runner now exc traceback read =>
    obtain rfl := of_decide_eq_true ha
    obtain ⟨h1, h2, -⟩ := finalizable_iff.1 hs
    exact ⟨h2 _ rfl, .inl h1⟩
  | lostExecution runner worker now error =>
    obtain rfl := of_decide_eq_true ha
    obtain ⟨h1, h2, -⟩ := finalizable_iff.1 hs
    refine ⟨h2 _ rfl, ?_⟩
    rcases List.mem_cons.1 h1 with h1 | h1
    · exact .inr ⟨rfl, h1⟩
    · exact .inl h1
  | _ => cases ha

theorem settles_in_flight {a : RowAct} {o : Option Task} (ha : a.settles r = true)
    (hs : a.selects o = true) : Held r o := by
  obtain ⟨t, ht, hr, hst⟩ := settles_held ha hs
  refine ⟨t, ht, hr, ?_⟩
  rcases hst with hf | ⟨-, hst⟩
  · exact final_in_flight hf
  · rw [hst]; decide

theorem settles_run {a : RowAct} {t : Task} {o : Option Task} (ha : a.settles r = true)
    (h : a.run reg (some t) = .ok o) : ∃ t', o = some t' ∧ t'.state ∉ inFlightStates ∧
      t'.retryCount ≤ t.retryCount + 1 := by
  change a.onTask reg t = .ok o at h
  unfold RowAct.onTask at h
  cases a with
  | done runner now result =>
    obtain ⟨t', h₁, rfl⟩ := map_some_ok h
    obtain ⟨-, rfl⟩ := checked_ok h₁
    exact ⟨_, rfl, by simp [inFlightStates], Int.le_add_of_nonneg_right (by decide)⟩
  | failure runner now exc traceback read =>
    obtain ⟨t', h₁, rfl⟩ := map_some_ok h
    refine ⟨t', rfl, (handleFailure_landed h₁).2, ?_⟩
    rcases handleFailure_cases h₁ with ⟨-, _, rfl⟩ | ⟨-, h₁⟩
    · exact Int.le_refl _
    · obtain ⟨-, rfl⟩ := checked_ok h₁
      exact Int.le_add_of_nonneg_right (by decide)
  | lostExecution runner worker now error =>
    obtain ⟨t', h₁, rfl⟩ := map_some_ok h
    refine ⟨t', rfl, (handleLostExecution_landed h₁).2, ?_⟩
    rcases handleLostExecution_cases h₁ with ⟨-, h₁⟩ | ⟨-, -, rfl⟩ | ⟨-, -, h₁⟩
    · obtain ⟨-, rfl⟩ := checked_ok h₁
      exact Int.le_add_of_nonneg_right (by decide)
    · exact Int.le_refl _
    · obtain ⟨-, rfl⟩ := checked_ok h₁
      exact Int.le_add_of_nonneg_right (by decide)
  | _ => cases ha

theorem settles_exec {a : RowAct} {p q : Bool × Option Task} (ha : a.settles r = true)
    (hs : a.selects p.2 = true) (h : a.exec reg p = .ok q) : ¬ Held r q.2 := by
  obtain ⟨t, ht, -⟩ := settles_held ha hs
  have hr := RowAct.exec_selected hs h
  rw [ht] at hr
  obtain ⟨t', ht', hl, -⟩ := settles_run ha hr
  rintro ⟨u, hu, -, hf⟩
  obtain rfl := Option.some.inj (ht'.symm.trans hu)
  exact hl hf

theorem settles_retries {a : RowAct} {o : Option Task} (ha : a.settles r = true)
    (hs : a.selects o = true) : a.retries reg o ≤ 1 := by
  obtain ⟨t, rfl, -⟩ := settles_held ha hs
  unfold RowAct.retries
  split
  · next t' heq =>
    obtain ⟨u, hu, -, hle⟩ := settles_run ha heq
    obtain rfl := Option.some.inj hu
    show (t'.retryCount - t.retryCount).toNat ≤ 1
    omega
  · exact Nat.zero_le 1

theorem settled_cons {weight : RowAct → Option Task → ℕ} {a : RowAct} {acts : List RowAct}
    {p q : Bool × Option Task} (h : a.exec reg p = .ok q) :
    settled reg r weight (a :: acts) p =
      (if a.settles r ∧ a.selects p.2 then weight a p.2 else 0) + settled reg r weight acts q := by
  rw [settled, h]

theorem settled_le {weight weight' : RowAct → Option Task → ℕ}
    (hw : ∀ a o, a.settles r = true → a.selects o = true → weight a o ≤ weight' a o)
    (acts : List RowAct) (p : Bool × Option Task) :
    settled reg r weight acts p ≤ settled reg r weight' acts p := by
  induction acts generalizing p with
  | nil => exact Nat.le_refl 0
  | cons a acts ih =>
    unfold settled
    refine Nat.add_le_add ?_ ?_
    · split_ifs with h
      · exact hw a p.2 h.1 h.2
      · exact Nat.le_refl 0
    · split
      · exact ih _
      · exact Nat.le_refl 0

theorem settled_unheld {weight : RowAct → Option Task → ℕ} {k : TaskId} {acts : List RowAct}
    {p q : Bool × Option Task} (ha : ∀ a ∈ acts, a.plain k = true)
    (h : runActs reg acts p = .ok q) (hp : ¬ Held r p.2) : settled reg r weight acts p = 0 := by
  induction acts generalizing p with
  | nil => rfl
  | cons a acts ih =>
    obtain ⟨p', hp', hrest⟩ := runActs_cons h
    have hkept := RowAct.exec_kept (ha a List.mem_cons_self) hp'
    rw [settled_cons hp', if_neg fun hs => hp (settles_in_flight hs.1 hs.2),
      ih (fun a hm => ha a (List.mem_cons_of_mem _ hm)) hrest fun hr => hp (hkept.held hr)]

/-- On one row, `r` is settled at most once, and then the row was in flight under `r` and is no
longer. -/
theorem settled_row {k : TaskId} {acts : List RowAct} {p q : Bool × Option Task}
    (ha : ∀ a ∈ acts, a.plain k = true) (h : runActs reg acts p = .ok q) :
    settled reg r (fun _ _ => 1) acts p ≤ 1 ∧
      (0 < settled reg r (fun _ _ => 1) acts p → Held r p.2 ∧ ¬ Held r q.2) := by
  induction acts generalizing p with
  | nil => exact ⟨Nat.zero_le 1, fun h => absurd h (Nat.lt_irrefl 0)⟩
  | cons a acts ih =>
    obtain ⟨p', hp', hrest⟩ := runActs_cons h
    have ha' : ∀ a ∈ acts, a.plain k = true := fun a hm => ha a (List.mem_cons_of_mem _ hm)
    rw [settled_cons hp']
    by_cases hs : a.settles r = true ∧ a.selects p.2 = true
    · -- the row has landed, so nothing more settles `r`
      have hno := settles_exec hs.1 hs.2 hp'
      rw [if_pos hs, settled_unheld ha' hrest hno]
      exact ⟨Nat.le_refl 1, fun _ => ⟨settles_in_flight hs.1 hs.2,
        fun hr => hno ((runActs_kept ha' hrest).held hr)⟩⟩
    · obtain ⟨h1, h2⟩ := ih ha' hrest
      rw [if_neg hs, Nat.zero_add]
      refine ⟨h1, fun hpos => ?_⟩
      obtain ⟨h3, h4⟩ := h2 hpos
      exact ⟨(RowAct.exec_kept (ha a List.mem_cons_self) hp').held h3, h4⟩

theorem settled_claim {c : ClaimArgs} {rank : TaskId → ℕ} {uuid : TaskId → RunnerId}
    {σ : Snapshot TaskId Task} {L : List TaskId} {k : TaskId} {p : Bool × Option Task} :
    settled reg r (fun _ _ => 1) ((Tx.claimTask c rank uuid).acts reg σ L k) p = 0 := by
  have hall : ∀ a ∈ (Tx.claimTask c rank uuid).acts reg σ L k, a.settles r = false := by
    intro a hm
    obtain ⟨t, -, ht⟩ := List.mem_map.1 (mem_acts.1 hm)
    obtain ⟨-, rfl⟩ := Prod.mk.inj ht
    rfl
  revert hall
  generalize (Tx.claimTask c rank uuid).acts reg σ L k = acts
  intro hall
  induction acts generalizing p with
  | nil => rfl
  | cons a acts ih =>
    unfold settled
    rw [if_neg (by rw [hall a List.mem_cons_self]; exact fun h => Bool.false_ne_true h.1),
      Nat.zero_add]
    split
    · exact ih fun a hm => hall a (List.mem_cons_of_mem _ hm)
    · rfl

/-! ## One transaction -/

theorem sum_le_one {K : Type*} {f : K → ℕ} {l : List K} (hl : l.Nodup) (h1 : ∀ k ∈ l, f k ≤ 1)
    (hu : ∀ k ∈ l, ∀ k' ∈ l, 0 < f k → 0 < f k' → k = k') : (l.map f).sum ≤ 1 := by
  induction l with
  | nil => exact Nat.zero_le 1
  | cons a l ih =>
    obtain ⟨hal, hl⟩ := List.nodup_cons.1 hl
    rw [List.map_cons, List.sum_cons]
    by_cases h0 : f a = 0
    · rw [h0, Nat.zero_add]
      exact ih hl (fun k hk => h1 k (List.mem_cons_of_mem _ hk)) fun k hk k' hk' =>
        hu k (List.mem_cons_of_mem _ hk) k' (List.mem_cons_of_mem _ hk')
    · have hrest : (l.map f).sum = 0 := by
        by_contra hne
        obtain ⟨n, hn, hpos⟩ := List.sum_pos_iff_exists_pos_nat.1 (Nat.pos_of_ne_zero hne)
        obtain ⟨k, hk, rfl⟩ := List.mem_map.1 hn
        have := hu a List.mem_cons_self k (List.mem_cons_of_mem _ hk) (Nat.pos_of_ne_zero h0) hpos
        exact hal (this ▸ hk)
      rw [hrest]
      exact h1 a List.mem_cons_self

theorem Sys.settled_commit {weight : RowAct → Option Task → ℕ} {i : ℕ} {x : Txn Tx TaskId Task}
    (hx : s.db.txns i = some x) : s.settled reg r weight (.db (.commit i)) =
      (x.locked.map fun k => GenericTaskQueue.settled reg r weight
        (x.act.acts reg x.snap x.locked k) (false, x.snap.row k)).sum := by
  show (s.db.txns i).elim 0 _ = _
  rw [hx]
  rfl

theorem Inv.commit_settles (hi : Inv reg s) {i : ℕ} {x : Txn Tx TaskId Task}
    (h : s.step reg (.db (.commit i)) = some s') (hx : s.db.txns i = some x) {k : TaskId}
    (hk : k ∈ x.locked) :
    GenericTaskQueue.settled reg r (fun _ _ => 1) (x.act.acts reg x.snap x.locked k)
        (false, x.snap.row k) ≤ 1 ∧
      (0 < GenericTaskQueue.settled reg r (fun _ _ => 1) (x.act.acts reg x.snap x.locked k)
        (false, x.snap.row k) → Held r (s.db.cur.row k) ∧ ¬ Held r (s'.db.cur.row k)) := by
  obtain ⟨b, hrun⟩ := commit_row hi.wf (Sys.step_of_db h).2 hx hk
  rw [(hi.wf.txn i x hx).locked_row hk]
  by_cases hc : ∃ c rank uuid, x.act = .claimTask c rank uuid
  · obtain ⟨c, rank, uuid, hact⟩ := hc
    rw [hact, settled_claim]
    exact ⟨Nat.zero_le 1, fun h => absurd h (Nat.lt_irrefl 0)⟩
  · exact settled_row (plain_acts fun c rank uuid heq => hc ⟨c, rank, uuid, heq⟩) hrun

theorem Inv.outcomes_le_one (hi : Inv reg s) (h : s.step reg ev = some s') :
    s.outcomes reg r ev ≤ 1 ∧ (0 < s.outcomes reg r ev →
      ∃ k, Held r (s.db.cur.row k) ∧ ¬ Held r (s'.db.cur.row k)) := by
  have hzero : s.outcomes reg r ev = 0 → s.outcomes reg r ev ≤ 1 ∧ (0 < s.outcomes reg r ev →
      ∃ k, Held r (s.db.cur.row k) ∧ ¬ Held r (s'.db.cur.row k)) := by
    intro h0
    rw [h0]
    exact ⟨Nat.zero_le 1, fun h => absurd h (Nat.lt_irrefl 0)⟩
  cases ev with
  | kill r => exact hzero rfl
  | finalizeCompleted w => exact hzero rfl
  | db e =>
    cases e with
    | begin a => exact hzero rfl
    | lock i => exact hzero rfl
    | skip i => exact hzero rfl
    | abort i => exact hzero rfl
    | commit i =>
      rcases hx : s.db.txns i with _ | x
      · exact hzero (by show (s.db.txns i).elim 0 _ = 0; rw [hx]; rfl)
      · have hrow := fun k hk => hi.commit_settles (r := r) h hx (k := k) hk
        unfold Sys.outcomes
        rw [Sys.settled_commit hx]
        refine ⟨sum_le_one (hi.wf.txn i x hx).nodup (fun k hk => (hrow k hk).1)
          fun k hk k' hk' hp hp' => ?_, fun hpos => ?_⟩
        · exact hi.held_unique ((hrow k hk).2 hp).1 ((hrow k' hk').2 hp').1
        · obtain ⟨n, hn, hp⟩ := List.sum_pos_iff_exists_pos_nat.1 hpos
          obtain ⟨k, hk, rfl⟩ := List.mem_map.1 hn
          exact ⟨k, (hrow k hk).2 hp⟩

/-! ## The life of a runner id -/

/-- Where `r` is in its life. -/
def Sys.stage (r : RunnerId) (s : Sys) : Stage :=
  if ∀ th ∈ s.threads, th.runner ≠ r then .fresh
  else if ∃ th ∈ s.threads, Held r (s.db.cur.row th.task) then .live
  else .spent

theorem Inv.stage_live (hi : Inv reg s) {k : TaskId} (h : Held r (s.db.cur.row k)) :
    s.stage r = .live := by
  obtain ⟨th, hm, hr, hk⟩ := hi.held k r h
  unfold Sys.stage
  rw [if_neg fun hno => hno th hm hr, if_pos ⟨th, hm, hk ▸ h⟩]

theorem stage_spent {th : Thread} (hm : th ∈ s.threads) (hr : th.runner = r)
    (h : ∀ k, ¬ Held r (s.db.cur.row k)) : s.stage r = .spent := by
  unfold Sys.stage
  rw [if_neg fun hno => hno th hm hr, if_neg fun ⟨th', _, hh⟩ => h _ hh]

theorem fenced (reg : Registry) (r : RunnerId) :
    Fenced (Sys.step reg) anyStep (Inv reg) (Sys.stage r) (Sys.outcomes reg r) where
  inv _ _ _ hi _ h := hi.step h
  le_one _ _ _ hi _ h := (hi.outcomes_le_one h).1
  live s ev s' hi _ h hpos := by
    obtain ⟨k, hk, hk'⟩ := (hi.outcomes_le_one h).2 hpos
    obtain ⟨th, hm, hr, -⟩ := hi.held k r hk
    refine ⟨hi.stage_live hk, stage_spent (Sys.step_keeps_thread h hm)
      ((th.after_same s ev).1.trans hr) fun k' hh => ?_⟩
    obtain rfl := hi.held_unique (hi.held_back h hm hr hh) hk
    exact hk' hh
  spent s ev s' hi _ h hsp := by
    unfold Sys.stage at hsp
    split_ifs at hsp with hfresh hlive
    simp only [not_forall, not_not] at hfresh
    obtain ⟨th, hm, hr⟩ := hfresh
    refine stage_spent (Sys.step_keeps_thread h hm) ((th.after_same s ev).1.trans hr) fun k hh => ?_
    have hh := hi.held_back h hm hr hh
    obtain ⟨th', hm', -, hk⟩ := hi.held k r hh
    exact hlive ⟨th', hm', hk ▸ hh⟩

/-! ## The row that is settled -/

theorem user_same_state {u : UserAct} {o o' : Option Task} (h : (RowAct.user u).run reg o = .ok o')
    {t' : Task} (ht' : o' = some t') (hf : t'.state ∈ inFlightStates) :
    ∃ t, o = some t ∧ t.state = t'.state := by
  subst ht'
  rcases o with _ | t
  · cases u with
    | create v =>
      obtain rfl := Option.some.inj (Except.ok.inj h)
      exact absurd hf (by simp [TaskVals.create, inFlightStates])
    | _ => cases h
  · cases UserAct.leaves h with
    | edited he => exact ⟨t, rfl, he.state.symm⟩
    | cancelled _ hs => rw [hs] at hf; exact absurd hf (by decide)
    | retried _ hs => rw [hs] at hf; exact absurd hf (by decide)

theorem users_same_state {acts : List RowAct} {p q : Bool × Option Task} {t' : Task}
    (hu : ∀ a ∈ acts, ∃ u, a = .user u) (h : runActs reg acts p = .ok q) (hq : q.2 = some t')
    (hf : t'.state ∈ inFlightStates) : ∃ t, p.2 = some t ∧ t.state = t'.state := by
  refine runActs_rel (R := fun o o' => ∀ t', o' = some t' → t'.state ∈ inFlightStates →
    ∃ t, o = some t ∧ t.state = t'.state) (fun o t' ht' _ => ⟨t', ht', rfl⟩) ?_ ?_ h t' hq hf
  · intro o₁ o₂ o₃ h₁ h₂ t₃ ht₃ hf₃
    obtain ⟨t₂, ht₂, hs₂⟩ := h₂ t₃ ht₃ hf₃
    obtain ⟨t₁, ht₁, hs₁⟩ := h₁ t₂ ht₂ (hs₂ ▸ hf₃)
    exact ⟨t₁, ht₁, hs₁.trans hs₂⟩
  · intro a hm o o' _ hr t' ht' hf
    obtain ⟨u, rfl⟩ := hu a hm
    exact user_same_state hr ht' hf

theorem users_acts {body : List (TaskId × UserAct)} {k : TaskId} {a : RowAct}
    (h : a ∈ ((userStmts body).filter fun p => p.1 = k).map Prod.snd) : ∃ u, a = .user u := by
  obtain ⟨p, hp, rfl⟩ := List.mem_map.1 h
  obtain ⟨q, -, rfl⟩ := List.mem_map.1 (List.mem_filter.1 hp).1
  exact ⟨_, rfl⟩

theorem before_last {A : Type*} {us pre post : List A} {a b : A} (h : us ++ [b] = pre ++ a :: post)
    (ha : a ∉ us) : ∀ c ∈ pre, c ∈ us := by
  rcases List.append_eq_append_iff.1 h with ⟨as, rfl, hb⟩ | ⟨bs, rfl, -⟩
  · cases as with
    | nil => intro c hc; rwa [List.append_nil] at hc
    | cons d ds =>
      have := congrArg List.length hb
      simp only [List.length_append, List.length_cons, List.length_nil] at this
      omega
  · exact fun c hc => List.mem_append_left _ hc

/-- A thread's final write comes after what task code did, and task code keeps the state. -/
theorem final_write_pre {x : Txn Tx TaskId Task} {k : TaskId} {a : RowAct} {pre post : List RowAct}
    (hacts : x.act.acts reg x.snap x.locked k = pre ++ a :: post) (ha : a.settles r = true)
    (hrec : a.recovers = false) : ∀ b ∈ pre, ∃ u, b = .user u := by
  have hiss := stmts_issues (mem_acts.1 (hacts ▸ List.mem_append_right pre List.mem_cons_self))
  have key : ∀ body : List (TaskId × UserAct), x.act.stmts reg x.snap x.locked =
      userStmts body ++ [(k, a)] → ∀ b ∈ pre, ∃ u, b = .user u := by
    intro body hst b hb
    rw [Tx.acts, hst, List.filter_append, List.map_append] at hacts
    simp only [List.filter_cons, decide_true, if_true, List.filter_nil, List.map_cons,
      List.map_nil] at hacts
    refine users_acts (before_last hacts (fun hm => ?_) b hb)
    obtain ⟨u, rfl⟩ := users_acts hm
    cases ha
  generalize x.act = act at hiss key
  cases hiss with
  | done r now body result => exact key body rfl
  | failure r now body exc traceback =>
    obtain ⟨hook, hst⟩ := failureHandler_stmts
    exact key hook hst
  | recovered => cases hrec
  | resolved => cases hrec
  | _ => cases ha

theorem Inv.settles_current (hi : Inv reg s) {i : ℕ} {x : Txn Tx TaskId Task}
    (hx : s.db.txns i = some x) {k : TaskId} {a : RowAct} {o : Option Task}
    (hg : GoesThrough reg x k a o) (ha : a.settles r = true) :
    OwnedBy r a (s.db.cur.row k) ∧ OwnedBy r a o := by
  have hnc : ∀ c rank uuid, x.act ≠ .claimTask c rank uuid := by
    intro c rank uuid heq
    have := hg.issues
    rw [heq] at this
    cases this <;> cases ha
  have hkept := hg.kept hnc
  obtain ⟨hk, pre, post, b, hacts, hrun, hsel⟩ := hg
  rw [(hi.wf.txn i x hx).locked_row hk] at hkept hrun
  have hown := settles_held ha hsel
  refine ⟨?_, hown⟩
  obtain ⟨t', ht', hr', hst'⟩ := hown
  obtain ⟨u, hu, hf'⟩ : ∃ u, o = some u ∧ u.state ∈ inFlightStates := by
    obtain ⟨u, hu, -, hf⟩ := settles_in_flight ha hsel
    exact ⟨u, hu, hf⟩
  obtain rfl := Option.some.inj (ht'.symm.trans hu)
  obtain ⟨t, ht, hf, hr, -⟩ := hkept.flight t' ht' hf'
  refine ⟨t, ht, hr.trans hr', ?_⟩
  rcases hrec : a.recovers with _ | _
  · obtain ⟨v, hv, hs⟩ := users_same_state (final_write_pre hacts ha hrec) hrun ht' hf'
    obtain rfl := Option.some.inj (ht.symm.trans hv)
    rw [hs]
    rw [hrec] at hst'
    exact .inl (hst'.resolve_right fun h => Bool.false_ne_true h.1)
  · rcases List.mem_cons.1 hf with hf | hf
    · exact .inr ⟨rfl, hf⟩
    · exact .inl hf

theorem Sys.retries_le_outcomes (s : Sys) (ev : Ev) : s.retries reg r ev ≤ s.outcomes reg r ev := by
  unfold Sys.retries Sys.outcomes Sys.settled
  split
  · next i =>
    rcases s.db.txns i with _ | x
    · exact Nat.le_refl 0
    · simp only [Option.elim_some]
      refine List.sum_le_sum fun k _ => ?_
      exact settled_le (fun a o ha hs => settles_retries ha hs) _ _
  · exact Nat.le_refl 0

/-- **Fencing.** In every run, at most one change is committed under a runner id, whoever attempts
it and however often; so `retry_count` rises at most by one. Such a change is made only to a row
that is under that runner and in flight. -/
theorem at_most_one_outcome {es : List Ev} (h0 : Start s) (hp : Path (Sys.step reg) anyStep s es s')
    (r : RunnerId) :
    total (Sys.step reg) (Sys.outcomes reg r) s es ≤ 1 ∧
    total (Sys.step reg) (Sys.retries reg r) s es ≤ 1 ∧
    ∀ i x k a o, s'.db.txns i = some x → GoesThrough reg x k a o → a.settles r = true →
      OwnedBy r a (s'.db.cur.row k) ∧ OwnedBy r a o := by
  have h1 := (fenced reg r).total_le_one hp h0.inv
  exact ⟨h1, Nat.le_trans (hp.total_le Sys.retries_le_outcomes) h1,
    fun i x k a o hx hg ha => (h0.inv.path hp).settles_current hx hg ha⟩

/-- Claimed by one worker, recovered by two others, and finished by its thread afterwards. -/
def contested : List Ev := [
  .db (.begin (.claimTask (exportClaim 1) id fun _ => 7)), .db (.lock 0), .db (.commit 0),
  .db (.begin (.actionStart 7 1 101)), .db (.lock 1), .db (.commit 1),
  .db (.begin (.recoverLostExecutions [] [1] 200 "lost" [])), .db (.lock 2),
  .db (.begin (.recoverLostExecutions [] [1] 201 "lost" [])), .db (.skip 3), .db (.commit 3),
  .db (.begin (.execute 7 1 202 [] (.returns none))), .db (.skip 4), .db (.commit 4),
  .db (.commit 2)]

theorem contested_one_outcome : ∃ s', Path (Sys.step []) anyStep (Sys.init oneTask) contested s' ∧
    total (Sys.step []) (Sys.outcomes [] 7) (Sys.init oneTask) contested ≤ 1 ∧
    total (Sys.step []) (Sys.outcomes [] 7) (Sys.init oneTask) contested = 1 := by
  have hp : Path (Sys.step []) anyStep (Sys.init oneTask) contested _ :=
    path_reached (by decide +kernel)
  exact ⟨_, hp, (at_most_one_outcome (Start.init (by decide)) hp 7).1, by decide +kernel⟩

end GenericTaskQueue
