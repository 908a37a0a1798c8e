import GenericBackground.TaskQueue.System

/-!
# Who moves a task forward

`action_start` and `action_wait_children` check the state of the task but not its runner, unlike the
final writes. A thread that has been given runner `r` at claim time moves its task only while the
row is under `r`, provided that no claim takes the task over while the thread has still to start or
to execute it (`Sys.reclaimsIdle`). Otherwise a thread that runs late starts the task of a later
claim.
-/

namespace GenericTaskQueue

open RowStore Lts

variable {reg : Registry} {s s' : Sys} {ev : Ev} {r : RunnerId} {k : TaskId}

def RowAct.advances : RowAct → Bool
  | .start _ => true
  | .waitChildren => true
  | _ => false

/-- The thread has yet to start, or to execute, its task. -/
def Thread.early (th : Thread) : Bool := th.phase = .spawned ∨ th.phase = .started

/-- A claim that commits takes no task of which an earlier thread is early. -/
def Sys.reclaimsIdle (s : Sys) : Ev → Bool
  | .db (.commit i) => (s.db.txns i).all fun x => (spawned x).all fun new =>
      s.threads.all fun th => th.task ≠ new.task || !th.early
  | _ => true

def Only (r : RunnerId) (o : Option Task) : Prop :=
  ∀ t, o = some t → t.state ∈ inFlightStates → t.runnerId = some r

theorem Kept.only {o o' : Option Task} (h : Kept k o o') (ho : Only r o) : Only r o' := by
  intro t' ht' hf'
  obtain ⟨t, ht, hf, hr, -⟩ := h.flight t' ht' hf'
  exact hr ▸ ho t ht hf

/-- A thread that is early, and a transaction that starts or executes, see no other runner than
their own. -/
structure Owned (s : Sys) : Prop where
  thread : ∀ th ∈ s.threads, th.early = true → Only th.runner (s.db.cur.row th.task)
  start : ∀ i x r k now, s.db.txns i = some x → x.act = .actionStart r k now →
    Only r (x.snap.row k)
  execute : ∀ i x r k now body outcome, s.db.txns i = some x →
    x.act = .execute r k now body outcome → Only r (x.snap.row k)

theorem Start.owned (h : Start s) : Owned s where
  thread th hm := by rw [h.no_thread] at hm; exact absurd hm List.not_mem_nil
  start _ _ _ _ _ hx := absurd hx h.closed
  execute _ _ _ _ _ _ _ hx := absurd hx h.closed

theorem early_after {th : Thread} (h : (th.after s ev).early = true) :
    th.early = true ∨ ∃ i x now, ev = .db (.commit i) ∧ s.db.txns i = some x ∧
      x.act = .actionStart th.runner th.task now := by
  have hch := Thread.after_change s ev th
  generalize th.after s ev = th' at hch h
  cases hch with
  | same => exact .inl h
  | @begin a =>
    cases a with
    | actionStart => cases h
    | execute => cases h
    | failureHandler => cases h
    | _ => exact .inl h
  | @skip _ x => cases hact : x.act <;> rw [hact] at h <;> exact .inl h
  | @commit i x hx ho =>
    cases hact : x.act with
    | actionStart r k now =>
      rw [hact] at ho
      obtain ⟨rfl, rfl⟩ := Prod.mk.inj (Option.some.inj ho)
      exact .inr ⟨i, x, now, rfl, hx, hact⟩
    | execute => rw [hact] at h; cases h
    | failureHandler => rw [hact] at h; cases h
    | _ => rw [hact] at h; exact .inl h
  | @abort _ x =>
    cases hact : x.act with
    | actionStart => rw [hact] at h; cases h
    | execute => rw [hact] at h; cases h
    | failureHandler => rw [hact] at h; cases h
    | _ => rw [hact] at h; exact .inl h
  | kill => cases h
  | finalize =>
    unfold Thread.finalize at h
    split_ifs at h <;> exact .inl h

theorem Claimed.idle (hc : Claimed s s' ev k r) (hok : s.reclaimsIdle ev = true) {th : Thread}
    (hm : th ∈ s.threads) (hk : th.task = k) : th.early = false := by
  obtain ⟨i, x, c, rank, uuid, rfl, hx, hact, hlk, -⟩ := hc
  simp only [Sys.reclaimsIdle, hx, Option.all_some, List.all_eq_true] at hok
  have hnew : { runner := uuid k, task := k, worker := c.worker : Thread } ∈ spawned x := by
    unfold spawned
    rw [hact]
    exact List.mem_map_of_mem hlk
  have := hok _ hnew th hm
  simpa [hk] using this

theorem only_spawned (hi : Inv reg s) (h : s.step reg ev = some s') {i : ℕ}
    {x : Txn Tx TaskId Task} (hev : ev = .db (.commit i)) (hx : s.db.txns i = some x)
    {th : Thread} (hm : th ∈ spawned x) : Only th.runner (s'.db.cur.row th.task) := by
  obtain ⟨c, rank, uuid, hact, hk, hth⟩ := mem_spawned hm
  intro t ht hf
  rcases Sys.row_cases hi.wf h th.task with hkept | ⟨r, i', x', c', rank', uuid', hev', hx', hact',
      -, hr, u, -, -, hu⟩
  · -- the row was pending
    obtain ⟨u, hu, -, hsel⟩ := claim_locked (hi.wf.txn i x hx) (hi.snapIds i x hx) hact hk
    obtain ⟨v, hv, hvf, -⟩ := hkept.flight t ht hf
    rw [(hi.wf.txn i x hx).locked_row hk] at hu
    obtain rfl := Option.some.inj (hu.symm.trans hv)
    have hp := (claimable_iff.1 (claimSelect_pending hsel).2).1
    rw [hp] at hvf
    exact absurd hvf (by decide)
  · rw [hu] at ht
    obtain rfl := Option.some.inj ht
    subst hev
    obtain rfl := Event.commit.inj (Ev.db.inj hev')
    obtain rfl := Option.some.inj (hx.symm.trans hx')
    obtain ⟨rfl, rfl, rfl⟩ := Tx.claimTask.inj (hact.symm.trans hact')
    rw [hth]
    show some r = some (uuid th.task)
    rw [hr]

theorem Owned.step (hi : Inv reg s) (ho : Owned s) (hok : s.reclaimsIdle ev = true)
    (h : s.step reg ev = some s') : Owned s' where
  thread th' hm' he := by
    rcases Sys.step_thread h hm' with ⟨th, hm, rfl⟩ | ⟨i, x, hev, hx, hsp⟩
    · obtain ⟨hr, hk, -⟩ := th.after_same s ev
      rw [hr, hk]
      rcases early_after he with he | ⟨i, x, now, rfl, hx, hact⟩
      · rcases Sys.row_cases hi.wf h th.task with hkept | ⟨r, hc⟩
        · exact hkept.only (ho.thread th hm he)
        · rw [hc.idle hok hm rfl] at he; cases he
      · obtain ⟨y, hy, hn, -⟩ := Sys.step_commit h
        obtain rfl := Option.some.inj (hx.symm.trans hy)
        have hlk := start_locked hi hx hact hn
        have honly := ho.start i x _ _ now hx hact
        rw [(hi.wf.txn i x hx).locked_row hlk] at honly
        rcases Sys.row_cases hi.wf h th.task with hkept | ⟨r, hc⟩
        · exact hkept.only honly
        · obtain ⟨j, z, c, rank, uuid, hev, hz, hzact, -⟩ := hc
          obtain rfl := Event.commit.inj (Ev.db.inj hev)
          obtain rfl := Option.some.inj (hx.symm.trans hz)
          rw [hact] at hzact
          cases hzact
    · exact only_spawned hi h hev hx hsp
  start i x r k now hx hact := by
    rcases Sys.step_txn h hx with ⟨y, hy, hya, hsnap⟩ | ⟨-, hsnap, -, hallow, -⟩
    · rw [hsnap]
      exact ho.start i y r k now hy (hya ▸ hact)
    · rw [hact] at hallow
      obtain ⟨th, hm, rfl, rfl, hready⟩ := allows_owner hallow rfl
      rw [hsnap]
      exact ho.thread th hm (decide_eq_true (.inl (of_decide_eq_true hready)))
  execute i x r k now body outcome hx hact := by
    rcases Sys.step_txn h hx with ⟨y, hy, hya, hsnap⟩ | ⟨-, hsnap, -, hallow, -⟩
    · rw [hsnap]
      exact ho.execute i y r k now body outcome hy (hya ▸ hact)
    · rw [hact] at hallow
      obtain ⟨th, hm, rfl, rfl, hready⟩ := allows_owner hallow rfl
      rw [hsnap]
      exact ho.thread th hm (decide_eq_true (.inr (of_decide_eq_true hready)))

theorem advances_in_flight {a : RowAct} {o o' : Option Task} (ha : a.advances = true)
    (h : a.run reg o = .ok o') : ∃ t, o = some t ∧ t.state ∈ inFlightStates := by
  rcases o with _ | t
  · cases a with
    | start now => cases h
    | waitChildren => cases h
    | _ => cases ha
  · refine ⟨t, rfl, ?_⟩
    change a.onTask reg t = .ok o' at h
    cases a with
    | start now =>
      obtain ⟨t', h₁, -⟩ := map_some_ok h
      rw [of_allowed_running (checked_ok h₁).1]
      decide
    | waitChildren =>
      obtain ⟨t', h₁, -⟩ := map_some_ok h
      have hw := (checked_ok h₁).1
      revert hw
      cases t.state <;> decide
    | _ => cases ha

/-- A thread's transaction that starts a task, or makes it wait, sees it under its own runner. -/
theorem Owned.advances (hi : Inv reg s) (ho : Owned s) {i : ℕ} {x : Txn Tx TaskId Task}
    (hx : s.db.txns i = some x) {a : RowAct} {o o' : Option Task} (hg : GoesThrough reg x k a o)
    (ha : a.advances = true) (hrun : a.run reg o = .ok o') :
    ∃ r t u, x.act.owner = some (r, k) ∧ s.db.cur.row k = some t ∧ t.runnerId = some r ∧
      o = some u ∧ u.runnerId = some r := by
  obtain ⟨r, hown, hnc, honly⟩ : ∃ r, x.act.owner = some (r, k) ∧
      (∀ c rank uuid, x.act ≠ .claimTask c rank uuid) ∧ Only r (x.snap.row k) := by
    have hiss := hg.issues
    rcases hact : x.act <;> rw [hact] at hiss <;> cases hiss <;> try cases ha
    · exact ⟨_, rfl, fun _ _ _ => Tx.noConfusion, ho.start i x _ _ _ hx hact⟩
    · exact ⟨_, rfl, fun _ _ _ => Tx.noConfusion, ho.execute i x _ _ _ _ _ hx hact⟩
  obtain ⟨u, hu, hf⟩ := advances_in_flight ha hrun
  obtain ⟨t, ht, htf, hr, -⟩ := (hg.kept hnc).flight u hu hf
  have htr := honly t ht htf
  exact ⟨r, t, u, hown, (hi.wf.txn i x hx).locked_row hg.1 ▸ ht, htr, hu, hr ▸ htr⟩

theorem Owned.path {es : List Ev} (h0 : Start s)
    (hp : Path (Sys.step reg) (fun s ev => s.reclaimsIdle ev = true) s es s') : Owned s' :=
  hp.inv_of (fun _ _ _ hi _ h => hi.step h) (fun _ _ _ hi ho hok h => ho.step hi hok h) h0.inv
    h0.owned

/-- **Ownership.** In every run in which no claim takes a task of which an earlier thread has yet to
start or to execute it, a thread starts its task, or makes it wait, only while the row is under the
runner of its own claim. -/
theorem owner_advances {es : List Ev} (h0 : Start s)
    (hp : Path (Sys.step reg) (fun s ev => s.reclaimsIdle ev = true) s es s') {i : ℕ}
    {x : Txn Tx TaskId Task} (hx : s'.db.txns i = some x) {a : RowAct} {o o' : Option Task}
    (hg : GoesThrough reg x k a o) (ha : a.advances = true) (hrun : a.run reg o = .ok o') :
    ∃ r t u, x.act.owner = some (r, k) ∧ s'.db.cur.row k = some t ∧ t.runnerId = some r ∧
      o = some u ∧ u.runnerId = some r :=
  (Owned.path h0 hp).advances (h0.inv.path hp) hx hg ha hrun

/-- Claimed, and its `action_start` about to commit. -/
def startedOnce : List Ev := [
  .db (.begin (.claimTask (exportClaim 1) id fun _ => 7)), .db (.lock 0), .db (.commit 0),
  .db (.begin (.actionStart 7 1 101)), .db (.lock 1)]

theorem startedOnce_owner : ∃ s x, Path (Sys.step []) (fun s ev => s.reclaimsIdle ev = true)
      (Sys.init oneTask) startedOnce s ∧ s.db.txns 1 = some x ∧
    ∃ r t u, x.act.owner = some (r, 1) ∧ s.db.cur.row 1 = some t ∧ t.runnerId = some r ∧
      s.db.cur.row 1 = some u ∧ u.runnerId = some r := by
  have hp : Path (Sys.step []) (fun s ev => s.reclaimsIdle ev = true) (Sys.init oneTask)
      startedOnce _ := path_reached (by decide +kernel)
  exact ⟨_, _, hp, rfl, owner_advances (i := 1) (a := .start 101) (Start.init (by decide)) hp rfl
    ⟨by decide +kernel, [], [], false, rfl, rfl, rfl⟩ rfl rfl⟩

/-- Claimed, requeued by crash recovery before the thread ran, and claimed again; then the first
thread runs. -/
def reclaimed : List Ev := [
  .db (.begin (.claimTask (exportClaim 1) id fun _ => 7)), .db (.lock 0), .db (.commit 0),
  .db (.begin (.recoverLostExecutions [] [1] 200 "lost" [])), .db (.lock 1), .db (.commit 1),
  .db (.begin (.claimTask (exportClaim 1) id fun _ => 8)), .db (.lock 2), .db (.commit 2),
  .db (.begin (.actionStart 7 1 300)), .db (.lock 3)]

/-- The first thread starts the task of the second claim. -/
theorem late_thread_starts : ∃ s s' x, Path (Sys.step []) anyStep (Sys.init oneTask) reclaimed s ∧
    s.db.txns 3 = some x ∧ x.act = .actionStart 7 1 300 ∧
    GoesThrough [] x 1 (.start 300) (s.db.cur.row 1) ∧
    (s.db.cur.row 1).map (fun t => (t.state, t.runnerId)) = some (.assigned, some 8) ∧
    s.step [] (.db (.commit 3)) = some s' ∧
    (s'.db.cur.row 1).map (fun t => (t.state, t.runnerId)) = some (.running, some 8) := by
  have hp : Path (Sys.step []) anyStep (Sys.init oneTask) reclaimed _ :=
    path_reached (by decide +kernel)
  exact ⟨_, _, _, hp, rfl, rfl, ⟨by decide +kernel, [], [], false, rfl, rfl, rfl⟩, rfl, rfl, rfl⟩

end GenericTaskQueue
