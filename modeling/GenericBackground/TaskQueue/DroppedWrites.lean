import GenericBackground.TaskQueue.Fencing

/-!
# Dropped final writes

A final write of a task thread asks for its row with `SKIP LOCKED` and is dropped when the row is
locked: "a skipped lock means someone else is finalizing". That is so when the transaction that has
the lock ends the execution (it recovers, cancels, settles or deletes the task) and is not rolled
back (`Sys.takenOver`). But rows are also locked by the lookup of `create_task`, by writes of
whitelisted fields, by progress ticks and by the stuck mark; a final write that is dropped for one
of these leaves its task running for good.
-/

namespace GenericTaskQueue

open RowStore Lts

variable {reg : Registry} {s s' : Sys} {ev : Ev} {r : RunnerId} {k : TaskId}

/-! ## Final writes -/

/-- The final write of a thread's transaction: its runner, its row and the statement. -/
def Tx.finalWrite (σ : Snapshot TaskId Task) : Tx → Option (RunnerId × TaskId × RowAct)
  | .execute r k now _ (.returns result) => some (r, k, .done r now result)
  | .failureHandler r k now _ exc traceback =>
    some (r, k, .failure r now exc traceback (σ.row k))
  | _ => none

/-- Row `k` as the transaction has left it before its last statement on it. -/
def beforeFinal (reg : Registry) (x : Txn Tx TaskId Task) (k : TaskId) :
    Except TaskError (Bool × Option Task) :=
  runActs reg (x.act.acts reg x.snap x.locked k).dropLast (false, x.snap.row k)

/-- The transaction asks for nothing more, and its final write on row `k` under `r` has returned
`False`: the row was not selected, or left out as locked. -/
def returnsFalse (reg : Registry) (x : Txn Tx TaskId Task) (r : RunnerId) (k : TaskId) : Bool :=
  (x.asks (prog reg)).isNone && match x.act.finalWrite x.snap, beforeFinal reg x k with
    | some (r', k', a), .ok p => r' = r ∧ k' = k ∧ (k ∈ x.locked → a.selects p.2 = false)
    | _, _ => false

theorem returnsFalse_iff {x : Txn Tx TaskId Task} : returnsFalse reg x r k = true ↔
    x.asks (prog reg) = none ∧ ∃ a p, x.act.finalWrite x.snap = some (r, k, a) ∧
      beforeFinal reg x k = .ok p ∧ (k ∈ x.locked → a.selects p.2 = false) := by
  unfold returnsFalse
  rw [Bool.and_eq_true, Option.isNone_iff_eq_none]
  refine and_congr_right fun _ => ⟨fun h => ?_, ?_⟩
  · split at h
    · next r' k' a p hw hp =>
      obtain ⟨rfl, rfl, hs⟩ := of_decide_eq_true h
      exact ⟨a, p, hw, hp, hs⟩
    · cases h
  · rintro ⟨a, p, hw, hp, hs⟩
    rw [hw, hp]
    exact decide_eq_true ⟨rfl, rfl, hs⟩

theorem finalWrite_owner {a : Tx} {σ : Snapshot TaskId Task} {w : RowAct}
    (h : a.finalWrite σ = some (r, k, w)) : a.owner = some (r, k) := by
  unfold Tx.finalWrite at h
  split at h
  · obtain ⟨rfl, hkw⟩ := Prod.mk.inj (Option.some.inj h); obtain ⟨rfl, -⟩ := Prod.mk.inj hkw; rfl
  · obtain ⟨rfl, hkw⟩ := Prod.mk.inj (Option.some.inj h); obtain ⟨rfl, -⟩ := Prod.mk.inj hkw; rfl
  · cases h

/-- The final write is the last statement; the statements before it are those of task code. -/
theorem finalWrite_stmts (reg : Registry) {a : Tx} {w : RowAct} {σ : Snapshot TaskId Task}
    (L : List TaskId) (h : a.finalWrite σ = some (r, k, w)) :
    ∃ body, a.stmts reg σ L = userStmts body ++ [(k, w)] ∧ a.limit = none := by
  unfold Tx.finalWrite at h
  split at h
  · next body _ =>
    obtain ⟨rfl, hkw⟩ := Prod.mk.inj (Option.some.inj h)
    obtain ⟨rfl, rfl⟩ := Prod.mk.inj hkw
    exact ⟨body, rfl, rfl⟩
  · obtain ⟨rfl, hkw⟩ := Prod.mk.inj (Option.some.inj h)
    obtain ⟨rfl, rfl⟩ := Prod.mk.inj hkw
    obtain ⟨hook, hst⟩ := failureHandler_stmts
    exact ⟨hook, hst, rfl⟩
  · cases h

theorem acts_final {a : Tx} {w : RowAct} {σ : Snapshot TaskId Task} {L : List TaskId}
    {body : List (TaskId × UserAct)} (h : a.stmts reg σ L = userStmts body ++ [(k, w)]) :
    a.acts reg σ L k = ((userStmts body).filter fun p => p.1 = k).map Prod.snd ++ [w] := by
  rw [Tx.acts, h, List.filter_append, List.map_append]
  simp

theorem finalWrite_selects {a : Tx} {σ : Snapshot TaskId Task} {w : RowAct}
    (h : a.finalWrite σ = some (r, k, w)) {o : Option Task} : w.selects o = true ↔
      ∃ t, o = some t ∧ t.runnerId = some r ∧ t.state ∈ finalStates := by
  have key : ∀ t, finalizable finalStates (some r) none t = true ↔
      t.runnerId = some r ∧ t.state ∈ finalStates := fun t => by
    rw [finalizable_iff]
    exact ⟨fun h => ⟨h.2.1 r rfl, h.1⟩, fun h => ⟨h.2, fun _ hq => hq ▸ h.1, nofun⟩⟩
  have row : ∀ {w : RowAct}, w.selects none = false →
      (∀ t, w.selects (some t) = finalizable finalStates (some r) none t) →
      (w.selects o = true ↔ ∃ t, o = some t ∧ t.runnerId = some r ∧ t.state ∈ finalStates) := by
    intro w hnone hsome
    cases o with
    | none =>
      rw [hnone]
      exact ⟨nofun, fun ⟨_, ht, _⟩ => nomatch ht⟩
    | some t =>
      rw [hsome, key]
      exact ⟨fun h => ⟨t, rfl, h⟩, fun ⟨_, ht, h⟩ => Option.some.inj ht ▸ h⟩
  unfold Tx.finalWrite at h
  split at h
  · obtain ⟨rfl, hkw⟩ := Prod.mk.inj (Option.some.inj h)
    obtain ⟨rfl, rfl⟩ := Prod.mk.inj hkw
    exact row rfl fun _ => rfl
  · obtain ⟨rfl, hkw⟩ := Prod.mk.inj (Option.some.inj h)
    obtain ⟨rfl, rfl⟩ := Prod.mk.inj hkw
    exact row rfl fun _ => rfl
  · cases h

/-! ## Statements that end an execution -/

/-- Cancelling, deleting, settling and recovering a task, and making it wait. -/
def RowAct.ends : RowAct → Bool
  | .user (.actionCancel _) => true
  | .user .unlink => true
  | .waitChildren => true
  | .done _ _ _ => true
  | .failure _ _ _ _ _ => true
  | .lostExecution _ _ _ _ => true
  | _ => false

/-- One of the statements goes through and ends the execution. -/
def endsRow (reg : Registry) : List RowAct → Bool × Option Task → Bool
  | [], _ => false
  | a :: acts, p => (a.ends && a.selects p.2) || match a.exec reg p with
    | .ok q => endsRow reg acts q
    | .error _ => false

theorem ends_exec {a : RowAct} {p q : Bool × Option Task} (ha : a.ends = true)
    (hs : a.selects p.2 = true) (h : a.exec reg p = .ok q) : ¬ Held r q.2 := by
  have hr := RowAct.exec_selected hs h
  rintro ⟨t', ht', -, hf⟩
  rw [ht'] at hr
  obtain ⟨b, _ | t⟩ := p
  · cases a with
    | user u =>
      cases u with
      | create v => cases ha
      | _ => cases hr
    | start now => cases ha
    | waitChildren => cases hr
    | _ => cases hs
  change a.onTask reg t = .ok (some t') at hr
  cases a with
  | user u =>
    cases u with
    | actionCancel now =>
      obtain ⟨-, rfl⟩ := checked_some hr
      exact absurd hf (by simp [inFlightStates])
    | unlink => cases hr
    | _ => cases ha
  | waitChildren =>
    obtain ⟨-, rfl⟩ := checked_some hr
    exact absurd hf (by simp [inFlightStates])
  | done runner now result =>
    obtain ⟨-, rfl⟩ := checked_some hr
    exact absurd hf (by simp [inFlightStates])
  | failure runner now exc traceback read =>
    exact (handleFailure_landed (ok_of_map_some hr)).2 hf
  | lostExecution runner worker now error =>
    exact (handleLostExecution_landed (ok_of_map_some hr)).2 hf
  | _ => cases ha

theorem endsRow_landed {acts : List RowAct} {p q : Bool × Option Task}
    (ha : ∀ a ∈ acts, a.plain k = true) (he : endsRow reg acts p = true)
    (h : runActs reg acts p = .ok q) : ¬ Held r q.2 := by
  induction acts generalizing p with
  | nil => cases he
  | cons a acts ih =>
    obtain ⟨p', hp', hrest⟩ := runActs_cons h
    have ha' : ∀ a ∈ acts, a.plain k = true := fun a hm => ha a (List.mem_cons_of_mem _ hm)
    unfold endsRow at he
    rw [hp', Bool.or_eq_true, Bool.and_eq_true] at he
    rcases he with ⟨he, hs⟩ | he
    · exact fun hq => ends_exec he hs hp' ((runActs_kept ha' hrest).held hq)
    · exact ih ha' he hrest

theorem endsRow_mem {acts : List RowAct} {p : Bool × Option Task} (h : endsRow reg acts p = true) :
    ∃ a ∈ acts, a.ends = true := by
  induction acts generalizing p with
  | nil => cases h
  | cons a acts ih =>
    unfold endsRow at h
    rcases Bool.or_eq_true_iff.1 h with h | h
    · exact ⟨a, List.mem_cons_self, (Bool.and_eq_true_iff.1 h).1⟩
    · split at h
      · obtain ⟨b, hb, he⟩ := ih h
        exact ⟨b, List.mem_cons_of_mem _ hb, he⟩
      · cases h

/-! ## Threads past their start -/

def NotAssigned (r : RunnerId) (o : Option Task) : Prop :=
  ∀ t, o = some t → t.runnerId = some r → t.state ≠ .assigned

theorem Kept.notAssigned {o o' : Option Task} (h : Kept k o o') (ho : NotAssigned r o) :
    NotAssigned r o' := by
  intro t' ht' hr' hst
  obtain ⟨t, ht, hf, hr, -, hrank⟩ := h.flight t' ht' (by rw [hst]; decide)
  refine ho t ht (hr.trans hr') ?_
  rw [hst] at hrank
  revert hf hrank
  cases t.state <;> decide

theorem Inv.notAssigned (hi : Inv reg s) (h : s.step reg ev = some s') {th : Thread}
    (hm : th ∈ s.threads) (hr : th.runner = r) (ho : NotAssigned r (s.db.cur.row k)) :
    NotAssigned r (s'.db.cur.row k) := by
  rcases Sys.row_cases hi.wf h k with hk | ⟨r', hc⟩
  · exact hk.notAssigned ho
  · -- a row that has just been claimed is under a new runner
    have hnew := (hc.thread h).1 th hm
    obtain ⟨_, _, _, _, _, _, _, _, _, _, t, _, _, hrow⟩ := hc
    intro u hu hru _
    rw [hrow] at hu
    obtain rfl := Option.some.inj hu
    exact hnew (hr.trans (Option.some.inj hru).symm)

/-- The transactions in which a thread executes its task, or handles its failure. -/
def Tx.executes : Tx → Bool
  | .execute _ _ _ _ _ => true
  | .failureHandler _ _ _ _ _ _ => true
  | _ => false

/-- Once a thread has started its task, the task is not assigned under it any more. -/
structure Begun (s : Sys) : Prop where
  thread : ∀ th ∈ s.threads, th.phase = .started ∨ th.phase = .failing →
    NotAssigned th.runner (s.db.cur.row th.task)
  txn : ∀ i x r k, s.db.txns i = some x → x.act.executes = true → x.act.owner = some (r, k) →
    NotAssigned r (x.snap.row k) ∧ NotAssigned r (s.db.cur.row k)

theorem Start.begun (h : Start s) : Begun s where
  thread th hm := by rw [h.no_thread] at hm; exact absurd hm List.not_mem_nil
  txn _ _ _ _ hx := absurd hx h.closed

theorem started_after {th : Thread}
    (h : (th.after s ev).phase = .started ∨ (th.after s ev).phase = .failing) :
    (th.phase = .started ∨ th.phase = .failing) ∨
      (∃ i x now, ev = .db (.commit i) ∧ s.db.txns i = some x ∧
        x.act = .actionStart th.runner th.task now) ∨
      ∃ i x, ev = .db (.abort i) ∧ s.db.txns i = some x ∧ x.act.executes = true ∧
        x.act.owner = some (th.runner, th.task) := by
  have hch := Thread.after_change s ev th
  generalize th.after s ev = th' at hch h
  cases hch with
  | same => exact .inl h
  | @begin a =>
    cases a with
    | actionStart => rcases h with h | h <;> cases h
    | execute => rcases h with h | h <;> cases h
    | failureHandler => rcases h with h | h <;> cases h
    | _ => exact .inl h
  | @skip _ x => cases hact : x.act <;> rw [hact] at h <;> exact .inl h
  | @commit i x hx ho =>
    cases hact : x.act with
    | actionStart r k now =>
      rw [hact] at ho
      obtain ⟨rfl, rfl⟩ := Prod.mk.inj (Option.some.inj ho)
      exact .inr (.inl ⟨i, x, now, rfl, hx, hact⟩)
    | execute => rw [hact] at h; rcases h with h | h <;> cases h
    | failureHandler => rw [hact] at h; rcases h with h | h <;> cases h
    | _ => rw [hact] at h; exact .inl h
  | @abort i x hx ho =>
    cases hact : x.act with
    | execute => exact .inr (.inr ⟨i, x, rfl, hx, by rw [hact]; rfl, ho⟩)
    | actionStart => rw [hact] at h; rcases h with h | h <;> cases h
    | failureHandler => rw [hact] at h; rcases h with h | h <;> cases h
    | _ => rw [hact] at h; exact .inl h
  | kill => rcases h with h | h <;> cases h
  | finalize =>
    unfold Thread.finalize at h
    split_ifs at h <;> exact .inl h

theorem started_row (hi : Inv reg s) {i : ℕ} {x : Txn Tx TaskId Task} {now : ℕ}
    (h : s.step reg (.db (.commit i)) = some s') (hx : s.db.txns i = some x)
    (hact : x.act = .actionStart r k now) :
    ∃ t, s'.db.cur.row k = some t ∧ t.state = .running := by
  obtain ⟨y, hy, hn, hstep⟩ := Sys.step_commit h
  obtain rfl := Option.some.inj (hx.symm.trans hy)
  obtain ⟨b, hrun⟩ := commit_row hi.wf hstep hx (start_locked hi hx hact hn)
  have hacts : x.act.acts reg x.snap x.locked k = [.start now] := by
    rw [hact]
    simp [Tx.acts, Tx.stmts]
  rw [hacts] at hrun
  obtain ⟨p, hp, hrest⟩ := runActs_cons hrun
  obtain rfl : p = (b, s'.db.cur.row k) := Except.ok.inj hrest
  rcases hrow : s.db.cur.row k with _ | t
  · rw [hrow] at hp; cases hp
  · rw [hrow] at hp
    change ((actionStart now t).map some).map (fun o => (false || true, o)) = _ at hp
    rcases hst : actionStart now t with e | t'
    · rw [hst] at hp; cases hp
    · rw [hst] at hp
      obtain ⟨-, rfl⟩ := checked_ok hst
      exact ⟨_, ((Prod.mk.inj (Except.ok.inj hp)).2).symm, rfl⟩

theorem Begun.step (hi : Inv reg s) (hb : Begun s) (h : s.step reg ev = some s') : Begun s' where
  thread th' hm' hph := by
    rcases Sys.step_thread h hm' with ⟨th, hm, rfl⟩ | ⟨i, x, -, -, hsp⟩
    · obtain ⟨hr, hk, -⟩ := th.after_same s ev
      rw [hr, hk]
      rcases started_after hph with hph | ⟨i, x, now, rfl, hx, hact⟩ | ⟨i, x, -, hx, hex, ho⟩
      · exact hi.notAssigned h hm rfl (hb.thread th hm hph)
      · obtain ⟨t, ht, hst⟩ := started_row hi h hx hact
        intro u hu _ has
        obtain rfl := Option.some.inj (ht.symm.trans hu)
        rw [hst] at has
        cases has
      · exact hi.notAssigned h hm rfl (hb.txn i x _ _ hx hex ho).2
    · obtain ⟨c, rank, uuid, -, -, hth⟩ := mem_spawned hsp
      rw [hth] at hph
      rcases hph with hph | hph <;> cases hph
  txn i x r k hx hex ho := by
    rcases Sys.step_txn h hx with ⟨y, hy, hya, hsnap⟩ | ⟨-, hsnap, hcur, hallow, -⟩
    · obtain ⟨th, hm, hr, -⟩ := hi.owned i y r k hy (hya ▸ ho)
      obtain ⟨h1, h2⟩ := hb.txn i y r k hy (hya ▸ hex) (hya ▸ ho)
      rw [hsnap]
      exact ⟨h1, hi.notAssigned h hm hr h2⟩
    · obtain ⟨th, hm, rfl, rfl, hready⟩ := allows_owner hallow ho
      have hph : th.phase = .started ∨ th.phase = .failing := by
        generalize x.act = a at hex hready
        cases a with
        | execute => exact .inl (of_decide_eq_true hready)
        | failureHandler => exact .inr (of_decide_eq_true hready)
        | _ => cases hex
      have := hb.thread th hm hph
      rw [hsnap, hcur]
      exact ⟨this, this⟩

/-! ## The transaction that has the lock -/

def Landing (reg : Registry) (s : Sys) (j : ℕ) (r : RunnerId) (k : TaskId) : Prop :=
  ∃ y, s.db.txns j = some y ∧ k ∈ y.locked ∧
    ∀ q, runActs reg (y.act.acts reg y.snap y.locked k) (false, y.snap.row k) = .ok q → ¬ Held r q.2

theorem Landing.commit {j : ℕ} (hl : Landing reg s j r k) (hi : Inv reg s)
    (h : s.step reg (.db (.commit j)) = some s') : ¬ Held r (s'.db.cur.row k) := by
  obtain ⟨y, hy, hk, hland⟩ := hl
  obtain ⟨y', hy', -, hstep⟩ := Sys.step_commit h
  obtain rfl := Option.some.inj (hy.symm.trans hy')
  obtain ⟨b, hrun⟩ := commit_row hi.wf hstep hy hk
  rw [← (hi.wf.txn j y hy).locked_row hk] at hrun
  exact hland _ hrun

theorem Landing.stays {j : ℕ} (hl : Landing reg s j r k) (hi : Inv reg s)
    (h : s.step reg ev = some s') (hc : ev ≠ .db (.commit j)) (ha : ev ≠ .db (.abort j)) :
    Landing reg s' j r k := by
  obtain ⟨y, hy, hk, hland⟩ := hl
  obtain ⟨y', hy', hact, hsnap, hsub, -, -⟩ := Sys.txn_stays hi.wf h hy hc ha
  have hst : y'.act.acts reg y'.snap y'.locked k = y.act.acts reg y.snap y.locked k := by
    unfold Tx.acts
    rw [hact, hsnap, stmts_locked (List.ne_nil_of_mem (hsub hk)) (List.ne_nil_of_mem hk)]
  refine ⟨y', hy', hsub hk, ?_⟩
  rw [hst, hsnap]
  exact hland

theorem Landing.step {j : ℕ} (hl : Landing reg s j r k) (hi : Inv reg s)
    (h : s.step reg ev = some s') (ha : ev ≠ .db (.abort j)) :
    ¬ Held r (s'.db.cur.row k) ∨ Landing reg s' j r k := by
  by_cases hc : ev = .db (.commit j)
  · subst hc
    exact .inl (hl.commit hi h)
  · exact .inr (hl.stays hi h hc ha)

/-- Some transaction has row `k` locked and ends the execution of its task. -/
def Sys.holderEnds (reg : Registry) (s : Sys) (k : TaskId) : Bool :=
  (List.range s.db.nextId).any fun j => (s.db.txns j).any fun y =>
    k ∈ y.locked ∧ endsRow reg (y.act.acts reg y.snap y.locked k) (false, y.snap.row k) = true

theorem holderEnds_landing (h : s.holderEnds reg k = true) (r : RunnerId) :
    ∃ j, Landing reg s j r k := by
  obtain ⟨j, -, hj⟩ := List.any_eq_true.1 h
  obtain ⟨y, hy, hk⟩ := (Option.any_eq_true _ _).1 hj
  obtain ⟨hk, he⟩ := of_decide_eq_true hk
  refine ⟨j, y, hy, hk, fun q hq => endsRow_landed (plain_acts fun c rank uuid heq => ?_) he hq⟩
  -- a claim ends no execution
  obtain ⟨a, hm, ha⟩ := endsRow_mem he
  rw [heq] at hm
  obtain ⟨t, -, ht⟩ := List.mem_map.1 (mem_acts.1 hm)
  obtain ⟨-, rfl⟩ := Prod.mk.inj ht
  cases ha

/-- A final write that finds its row locked, its task being in flight, finds it locked by a
transaction that ends the execution; and after a final write has returned `False`, no transaction
that has the row locked is rolled back with the task still in flight. -/
def Sys.takenOver (reg : Registry) (s : Sys) : Ev → Bool
  | .db (.skip i) => (s.db.txns i).all fun x => (x.act.finalWrite x.snap).all fun w =>
      Held w.1 (s.db.cur.row w.2.1) → s.holderEnds reg w.2.1 = true
  | .db (.abort j) => (s.db.txns j).all fun y => s.threads.all fun th =>
      th.task ∈ y.locked ∧ Held th.runner (s.db.cur.row th.task) →
        th.dropped = false ∧ returnsFalse reg y th.runner th.task = false
  | _ => true

theorem dropped_stays {th : Thread} (h : th.dropped = true) : (th.after s ev).dropped = true := by
  have hch := Thread.after_change s ev th
  generalize th.after s ev = th' at hch ⊢
  cases hch with
  | same => exact h
  | @begin a => cases a <;> exact h
  | @skip _ x => cases x.act <;> first | exact h | rfl
  | @commit _ x => cases x.act <;> exact h
  | @abort _ x => cases x.act <;> exact h
  | kill => exact h
  | finalize => unfold Thread.finalize; split_ifs <;> exact h

theorem dropped_after {th : Thread} (h : (th.after s ev).dropped = true) :
    th.dropped = true ∨ ∃ i x, ev = .db (.skip i) ∧ s.db.txns i = some x ∧
      x.act.executes = true ∧ x.act.owner = some (th.runner, th.task) := by
  have hch := Thread.after_change s ev th
  generalize th.after s ev = th' at hch h
  cases hch with
  | same => exact .inl h
  | @begin a => cases a <;> exact .inl h
  | @skip i x hx ho =>
    cases hact : x.act with
    | execute => exact .inr ⟨i, x, rfl, hx, by rw [hact]; rfl, ho⟩
    | failureHandler => exact .inr ⟨i, x, rfl, hx, by rw [hact]; rfl, ho⟩
    | _ => rw [hact] at h; exact .inl h
  | @commit _ x => cases hact : x.act <;> rw [hact] at h <;> exact .inl h
  | @abort _ x => cases hact : x.act <;> rw [hact] at h <;> exact .inl h
  | kill => exact .inl h
  | finalize =>
    unfold Thread.finalize at h
    split_ifs at h <;> exact .inl h

/-- What a thread leaves out as locked is the row of its final write. -/
theorem skipped_final {a : Tx} {σ : Snapshot TaskId Task} {L S : List TaskId}
    (ha : a.executes = true) (h : (prog reg).next a σ L S = some (.skipLocked, k)) :
    ∃ r w, a.finalWrite σ = some (r, k, w) := by
  obtain ⟨act, hm, hmode, -⟩ := next_some h
  cases stmts_issues hm with
  | user _ u => cases hmode
  | done r now body result => exact ⟨r, _, rfl⟩
  | failure r now body exc traceback => exact ⟨r, _, rfl⟩
  | waitChildren => cases hmode
  | _ => cases ha

/-- A thread has `dropped` a final write once one found its row locked; as long as its task is in
flight, some open transaction that has the row locked will end it. -/
structure Dropping (reg : Registry) (s : Sys) : Prop where
  skipped : ∀ i x r k w, s.db.txns i = some x → x.act.finalWrite x.snap = some (r, k, w) →
    k ∈ x.skipped → ∃ th ∈ s.threads, th.runner = r ∧ th.task = k ∧ th.dropped = true
  landing : ∀ th ∈ s.threads, th.dropped = true → Held th.runner (s.db.cur.row th.task) →
    ∃ j, Landing reg s j th.runner th.task

theorem Start.dropping (h : Start s) : Dropping reg s where
  skipped _ _ _ _ _ hx := absurd hx h.closed
  landing th hm := by rw [h.no_thread] at hm; exact absurd hm List.not_mem_nil

theorem finalWrite_executes {a : Tx} {σ : Snapshot TaskId Task} {w : RowAct}
    (h : a.finalWrite σ = some (r, k, w)) : a.executes = true := by
  unfold Tx.finalWrite at h
  split at h <;> first | rfl | cases h

theorem skip_drops {i : ℕ} {x : Txn Tx TaskId Task} {th : Thread} (hx : s.db.txns i = some x)
    (hex : x.act.executes = true) (ho : x.act.owner = some (th.runner, th.task)) :
    (th.after s (.db (.skip i))).dropped = true := by
  rw [Thread.after_skip hx ho]
  generalize x.act = a at hex
  cases a <;> first | rfl | cases hex

theorem Dropping.step (hi : Inv reg s) (hd : Dropping reg s) (hok : s.takenOver reg ev = true)
    (h : s.step reg ev = some s') : Dropping reg s' where
  skipped i x r k w hx hw hk := by
    obtain ⟨y, hy, hya, hys, hcase⟩ := Sys.step_skipped h hx hk
    rw [hya, hys] at hw
    rcases hcase with hS | ⟨rfl, -, -⟩
    · obtain ⟨th, hm, rfl, rfl, hdr⟩ := hd.skipped i y r k w hy hw hS
      obtain ⟨h1, h2, -⟩ := th.after_same s ev
      exact ⟨_, Sys.step_keeps_thread h hm, h1, h2, dropped_stays hdr⟩
    · obtain ⟨th, hm, rfl, rfl⟩ := hi.owned i y r k hy (finalWrite_owner hw)
      obtain ⟨h1, h2, -⟩ := th.after_same s (.db (.skip i))
      exact ⟨_, Sys.step_keeps_thread h hm, h1, h2,
        skip_drops hy (finalWrite_executes hw) (finalWrite_owner hw)⟩
  landing th' hm' hdr hh := by
    rcases Sys.step_thread h hm' with ⟨th, hm, rfl⟩ | ⟨i, x, -, -, hsp⟩
    · obtain ⟨hr, hk, -⟩ := th.after_same s ev
      rw [hr, hk] at hh ⊢
      have hcur := hi.held_back h hm rfl hh
      rcases dropped_after hdr with hdr | ⟨i, x, rfl, hx, hex, ho⟩
      · obtain ⟨j, hl⟩ := hd.landing th hm hdr hcur
        refine ⟨j, (hl.step hi h fun hab => ?_).resolve_left fun hno => hno hh⟩
        obtain ⟨y, hy, hlk, -⟩ := hl
        simp only [hab, Sys.takenOver, hy, Option.all_some, List.all_eq_true,
          decide_eq_true_eq] at hok
        rw [(hok th hm ⟨hlk, hcur⟩).1] at hdr
        cases hdr
      · -- the holder of the lock ends the execution
        obtain ⟨y, k, hy, hask, -⟩ := (Sys.step_of_db h).2.skip_inv
        obtain rfl := Option.some.inj (hx.symm.trans hy)
        obtain ⟨r, w, hw⟩ := skipped_final hex hask
        obtain ⟨rfl, rfl⟩ := Prod.mk.inj (Option.some.inj ((finalWrite_owner hw).symm.trans ho))
        simp only [Sys.takenOver, hx, Option.all_some, hw, decide_eq_true_eq] at hok
        obtain ⟨j, hl⟩ := holderEnds_landing (hok hcur) th.runner
        exact ⟨j, (hl.step hi h nofun).resolve_left fun hno => hno hh⟩
    · obtain ⟨c, rank, uuid, -, -, hth⟩ := mem_spawned hsp
      rw [hth] at hdr
      cases hdr

/-! ## After a dropped write -/

/-- The final write of the thread with runner `r` has returned `False`; so far as its row is
locked by `j`, `j` may not be rolled back. -/
def Guarded (reg : Registry) (s : Sys) (j : ℕ) (r : RunnerId) (k : TaskId) : Prop :=
  (∃ th ∈ s.threads, th.runner = r ∧ th.task = k ∧ th.dropped = true) ∨
    ∃ y, s.db.txns j = some y ∧ returnsFalse reg y r k = true

/-- When a final write has returned `False` with its task still in flight, an open transaction has
the row locked and ends the execution. -/
theorem Dropping.returned (hi : Inv reg s) (hb : Begun s) (hd : Dropping reg s) {i : ℕ}
    {x : Txn Tx TaskId Task} (hx : s.db.txns i = some x) (hf : returnsFalse reg x r k = true)
    (hh : Held r (s.db.cur.row k)) : ∃ j, Landing reg s j r k ∧ Guarded reg s j r k := by
  obtain ⟨hn, w, p, hw, hbf, hsel⟩ := returnsFalse_iff.1 hf
  obtain ⟨body, hst, hlim⟩ := finalWrite_stmts reg x.locked hw
  obtain ⟨t, ht, htr, htf⟩ := hi.snap i x r k k hx (finalWrite_owner hw) hh
  have hna := (hb.txn i x r k hx (finalWrite_executes hw) (finalWrite_owner hw)).1 t ht htr
  have hfin : t.state ∈ finalStates := (List.mem_cons.1 htf).resolve_left hna
  by_cases hk : k ∈ x.locked
  · -- task code has landed the row in the same transaction
    refine ⟨i, ⟨x, hx, hk, fun q hq hheld => ?_⟩, .inr ⟨x, hx, hf⟩⟩
    have hacts := acts_final hst
    unfold beforeFinal at hbf
    rw [hacts, List.dropLast_concat] at hbf
    rw [hacts] at hq
    obtain ⟨p', hp', hlast⟩ := runActs_append hq
    obtain rfl := Except.ok.inj (hbf.symm.trans hp')
    obtain ⟨q', hq', hend⟩ := runActs_cons hlast
    obtain rfl := Except.ok.inj hend
    unfold RowAct.exec at hq'
    rw [if_neg (by rw [hsel hk]; exact Bool.false_ne_true)] at hq'
    obtain rfl := Except.ok.inj hq'
    obtain ⟨u, hu, hur, huf⟩ := hheld
    obtain ⟨t', ht', hst'⟩ := users_same_state (fun _ hm => users_acts hm) hbf hu huf
    obtain rfl := Option.some.inj (ht.symm.trans ht')
    have := hsel hk
    rw [(finalWrite_selects hw).2 ⟨u, hu, hur, hst' ▸ hfin⟩] at this
    cases this
  · have hm : (k, w) ∈ x.act.stmts reg x.snap x.locked := by
      rw [hst]
      exact List.mem_append_right _ (List.mem_singleton.2 rfl)
    rcases next_none hn hlim hm with hL | hS | hno
    · exact absurd hL hk
    · obtain ⟨th, hmem, rfl, rfl, hdr⟩ := hd.skipped i x r k w hx hw hS
      obtain ⟨j, hl⟩ := hd.landing th hmem hdr hh
      exact ⟨j, hl, .inl ⟨th, hmem, rfl, rfl, hdr⟩⟩
    · rw [(finalWrite_selects hw).2 ⟨t, ht, htr, hfin⟩] at hno
      cases hno

theorem Guarded.step {j : ℕ} (hg : Guarded reg s j r k) (hi : Inv reg s)
    (h : s.step reg ev = some s') (hc : ev ≠ .db (.commit j)) (ha : ev ≠ .db (.abort j)) :
    Guarded reg s' j r k := by
  rcases hg with ⟨th, hm, hr, hk, hdr⟩ | ⟨y, hy, hf⟩
  · obtain ⟨h1, h2, -⟩ := th.after_same s ev
    exact .inl ⟨_, Sys.step_keeps_thread h hm, h1.trans hr, h2.trans hk, dropped_stays hdr⟩
  · obtain ⟨y', hy', -, -, -, -, hsame⟩ := Sys.txn_stays hi.wf h hy hc ha
    obtain rfl := hsame (returnsFalse_iff.1 hf).1
    exact .inr ⟨_, hy', hf⟩

/-- The invariant, and a thread of runner `r`. -/
structure Runs (reg : Registry) (r : RunnerId) (s : Sys) : Prop where
  inv : Inv reg s
  thread : ∃ th ∈ s.threads, th.runner = r

theorem Runs.step (hr : Runs reg r s) (h : s.step reg ev = some s') : Runs reg r s' := by
  obtain ⟨hi, th, hm, hth⟩ := hr
  exact ⟨hi.step h, _, Sys.step_keeps_thread h hm, (th.after_same s ev).1.trans hth⟩

theorem Runs.not_held (hr : Runs reg r s) (h : s.step reg ev = some s')
    (hno : ¬ Held r (s.db.cur.row k)) : ¬ Held r (s'.db.cur.row k) := by
  obtain ⟨hi, th, hm, hth⟩ := hr
  exact fun hh => hno (hi.held_back h hm hth hh)

/-- After a dropped write the task is not in flight under `r`, or `j` has its row locked and is
going to end the execution. -/
def Resolving (reg : Registry) (s : Sys) (j : ℕ) (r : RunnerId) (k : TaskId) : Prop :=
  ¬ Held r (s.db.cur.row k) ∨ Landing reg s j r k ∧ Guarded reg s j r k

theorem Resolving.step {j : ℕ} (hl : Resolving reg s j r k) (hr : Runs reg r s)
    (hok : s.takenOver reg ev = true) (h : s.step reg ev = some s') : Resolving reg s' j r k := by
  by_cases hh : Held r (s.db.cur.row k)
  · obtain ⟨hl, hg⟩ := hl.resolve_left fun hno => hno hh
    by_cases hc : ev = .db (.commit j)
    · subst hc
      exact .inl (hl.commit hr.inv h)
    · have ha : ev ≠ .db (.abort j) := by
        intro hab
        obtain ⟨y, hy, hlk, -⟩ := hl
        obtain ⟨th, hm, rfl, rfl⟩ := hr.inv.held k r hh
        simp only [hab, Sys.takenOver, hy, Option.all_some, List.all_eq_true,
          decide_eq_true_eq] at hok
        obtain ⟨hdr, hf⟩ := hok th hm ⟨hlk, hh⟩
        rcases hg with ⟨th', hm', hr', -, hdr'⟩ | ⟨y', hy', hf'⟩
        · obtain rfl := hr.inv.same_thread hm' hm hr'
          rw [hdr] at hdr'
          cases hdr'
        · obtain rfl := Option.some.inj (hy.symm.trans hy')
          rw [hf] at hf'
          cases hf'
      exact .inr ⟨hl.stays hr.inv h hc ha, hg.step hr.inv h hc ha⟩
  · exact .inl (hr.not_held h hh)

/-- **Dropped writes.** In every run whose steps meet `takenOver`: when the final write of a thread
has returned `False`, then once the transactions open at that moment have ended, the task is not in
flight under the thread's runner any more. -/
theorem dropped_write_taken_over {s₀ : Sys} {es es' : List Ev} (h0 : Start s₀)
    (hp : Path (Sys.step reg) (fun s ev => s.takenOver reg ev = true) s₀ es s) {i : ℕ}
    {x : Txn Tx TaskId Task} (hx : s.db.txns i = some x) (hf : returnsFalse reg x r k = true)
    (hp' : Path (Sys.step reg) (fun s ev => s.takenOver reg ev = true) s es' s')
    (hend : ∀ j, s.db.txns j ≠ none → s'.db.txns j = none) : ¬ Held r (s'.db.cur.row k) := by
  have hi := h0.inv.path hp
  have hb : Begun s := hp.inv_of (fun _ _ _ hi _ h => hi.step h)
    (fun _ _ _ hi hb _ h => hb.step hi h) h0.inv h0.begun
  have hd : Dropping reg s := hp.inv_of (fun _ _ _ hi _ h => hi.step h)
    (fun _ _ _ hi hd hok h => hd.step hi hok h) h0.inv h0.dropping
  have hr : Runs reg r s := by
    obtain ⟨-, w, p, hw, -⟩ := returnsFalse_iff.1 hf
    obtain ⟨th, hm, hth, -⟩ := hi.owned i x r k hx (finalWrite_owner hw)
    exact ⟨hi, th, hm, hth⟩
  by_cases hh : Held r (s.db.cur.row k)
  · obtain ⟨j, hl, hg⟩ := hd.returned hi hb hx hf hh
    have hopen : s.db.txns j ≠ none := by
      obtain ⟨y, hy, -⟩ := hl
      rw [hy]
      exact nofun
    have hres : Resolving reg s' j r k :=
      hp'.inv_of (I := fun s => Resolving reg s j r k) (fun _ _ _ hr _ h => hr.step h)
        (fun _ _ _ hr hl hok h => hl.step hr hok h) hr (.inr ⟨hl, hg⟩)
    refine hres.resolve_right fun hno => ?_
    obtain ⟨⟨y, hy, -⟩, -⟩ := hno
    rw [hend j hopen] at hy
    cases hy
  · exact hp'.inv_of (I := fun s => ¬ Held r (s.db.cur.row k)) (fun _ _ _ hr _ h => hr.step h)
      (fun _ _ _ hr hno _ h => hr.not_held h hno) hr hh

def keyedTask : Table where
  rows := [{ id := 1, name := "export", typeCode := "export", uniqueKey := some "nightly"
             dateCreated := 10, createUid := 2 }]
  nodup := by simp

/-- Claimed and started; its thread is about to call `action_done`. -/
def executing : List Ev := [
  .db (.begin (.claimTask (exportClaim 1) id fun _ => 7)), .db (.lock 0), .db (.commit 0),
  .db (.begin (.actionStart 7 1 101)), .db (.lock 1), .db (.commit 1),
  .db (.begin (.execute 7 1 200 [] (.returns none)))]

/-- Its row is locked by a cancellation. -/
def cancelledMeanwhile : List Ev := executing ++
  [.db (.begin (.user [(1, .actionCancel 210)])), .db (.lock 3), .db (.skip 2)]

theorem cancelledMeanwhile_taken_over : ∃ s s' x,
    Path (Sys.step []) (fun s ev => s.takenOver [] ev = true) (Sys.init keyedTask)
      cancelledMeanwhile s ∧
    s.db.txns 2 = some x ∧ returnsFalse [] x 7 1 = true ∧
    Path (Sys.step []) (fun s ev => s.takenOver [] ev = true) s
      [.db (.commit 2), .db (.commit 3)] s' ∧ ¬ Held 7 (s'.db.cur.row 1) := by
  have hp : Path (Sys.step []) (fun s ev => s.takenOver [] ev = true) (Sys.init keyedTask)
      cancelledMeanwhile (reached _ _ _ _) := path_reached (by decide +kernel)
  have hp' : Path (Sys.step []) (fun s ev => s.takenOver [] ev = true)
      (reached (Sys.step []) (fun s ev => s.takenOver [] ev = true) (Sys.init keyedTask)
        cancelledMeanwhile) [.db (.commit 2), .db (.commit 3)] (reached _ _ _ _) :=
    path_reached (by decide +kernel)
  have hend := (((Start.init (by decide)).inv.path hp).path hp').closed (by decide +kernel)
  exact ⟨_, _, _, hp, rfl, by decide +kernel, hp', dropped_write_taken_over (i := 2)
    (Start.init (by decide)) hp rfl (by decide +kernel) hp' fun j _ => hend j⟩

/-- Its row is locked by `create_task`, looking for an active task of the same key. -/
def lookedUpMeanwhile : List Ev := executing ++
  [.db (.begin (.user [(1, .lookupUniqueKey "nightly")])), .db (.lock 3), .db (.skip 2)]

/-- Nobody finishes the task; it stays running. -/
theorem lookedUp_task_lost : ∃ s s' x,
    Path (Sys.step []) anyStep (Sys.init keyedTask) lookedUpMeanwhile s ∧
    s.db.txns 2 = some x ∧ returnsFalse [] x 7 1 = true ∧
    Path (Sys.step []) anyStep s [.db (.commit 2), .db (.commit 3)] s' ∧
    (∀ j, s'.db.txns j = none) ∧
    (s'.db.cur.row 1).map (fun t => (t.state, t.runnerId)) = some (.running, some 7) := by
  have hp : Path (Sys.step []) anyStep (Sys.init keyedTask) lookedUpMeanwhile (reached _ _ _ _) :=
    path_reached (by decide +kernel)
  have hp' : Path (Sys.step []) anyStep
      (reached (Sys.step []) anyStep (Sys.init keyedTask) lookedUpMeanwhile)
      [.db (.commit 2), .db (.commit 3)] (reached _ _ _ _) := path_reached (by decide +kernel)
  have hend := (((Start.init (by decide)).inv.path hp).path hp').closed (by decide +kernel)
  exact ⟨_, _, _, hp, rfl, by decide +kernel, hp', hend, rfl⟩

end GenericTaskQueue
