import GenericBackground.TaskQueue.LiveThread

/-!
# Threads that the supervisor removes

`_finalize_completed` drops the threads that have ended from `_active_tasks`. For one that had timed
out it looks at the task (`_handle_resolved_stuck_threads`), and treats it as a lost execution if it
is `stuck`; the others it just drops. A task of which the thread is gone but which is still in
flight under the thread's runner is not recovered by this worker any more.

A thread ends with the commit of its execution or of its failure handler, and unless the final write
was dropped its task has then landed (`Begun.commit_lands`). Every other end leaves the task as it
is: `action_start` or the failure handler rolled back, a final write dropped, the thread dead
between two transactions (`Thread.givesUp`). That is made good only when the thread has timed out
and the task was marked `stuck` before (`Sys.endsHandled`). A thread whose `action_start` fails
leaves its task assigned for good.
-/

namespace GenericTaskQueue

open RowStore Lts

variable {reg : Registry} {s s' : Sys} {ev : Ev} {r : RunnerId} {k : TaskId}

/-- The transactions after whose rollback the thread function returns. -/
def Tx.closes : Tx → Bool
  | .actionStart _ _ _ => true
  | .failureHandler _ _ _ _ _ _ => true
  | _ => false

/-- The thread ends without a final write: it never starts or dies between two transactions, its
`action_start` or its failure handler is rolled back, or its last transaction commits and has left
the task's row out as locked. -/
def Thread.givesUp (s : Sys) (ev : Ev) (th : Thread) : Bool :=
  match ev with
  | .kill r => th.runner = r ∧ th.phase.idle
  | .db (.abort i) => (s.db.txns i).any fun x => th.owns x.act ∧ x.act.closes
  | .db (.commit i) => (s.db.txns i).any fun x =>
      th.owns x.act ∧ x.act.executes ∧ th.task ∈ x.skipped
  | _ => false

/-- If the task is in flight under the thread, the thread has timed out and the task is `stuck`. -/
def Sys.marked (s : Sys) (th : Thread) : Bool :=
  Held th.runner (s.db.cur.row th.task) →
    th.timedOut = true ∧ (s.db.cur.row th.task).map Task.state = some .stuck

/-- The check of a resolved stuck thread, and the thread's task is still in flight under it. -/
def Sys.checksHeld (s : Sys) (x : Txn Tx TaskId Task) : Bool :=
  match x.act with
  | .resolvedStuckThread r k _ _ => Held r (s.db.cur.row k)
  | _ => false

/-- The check of a resolved stuck thread that ends here, or leaves a row out, has no task in flight
to look after. -/
def Sys.checksThrough (s : Sys) : Ev → Bool
  | .db (.skip i) => (s.db.txns i).all fun x => !s.checksHeld x
  | .db (.abort i) => (s.db.txns i).all fun x => !s.checksHeld x
  | _ => true

/-- A thread ends without a final write only with its task `marked`; and as long as the task is in
flight, the check of a resolved stuck thread is not rolled back, nor does it find the row locked. -/
def Sys.endsHandled (s : Sys) (ev : Ev) : Bool :=
  (s.threads.all fun th => th.givesUp s ev → s.marked th = true) && s.checksThrough ev

/-! ## How a thread ends -/

/-- The transaction in which a thread executes its task, or handles the failure, ends with a
statement that lands the task, and it selects every task that is running or stuck under the
thread. -/
theorem execution_stmts (reg : Registry) {a : Tx} {σ : Snapshot TaskId Task} (L : List TaskId)
    (ha : a.executes = true) (ho : a.owner = some (r, k)) :
    ∃ body w, a.stmts reg σ L = userStmts body ++ [(k, w)] ∧ a.limit = none ∧ w.ends = true ∧
      ∀ t, t.runnerId = some r → t.state ∈ finalStates → w.selects (some t) = true := by
  have final : ∀ {w : RowAct}, a.finalWrite σ = some (r, k, w) → ∀ t : Task,
      t.runnerId = some r → t.state ∈ finalStates → w.selects (some t) = true :=
    fun hw t hr hf => (finalWrite_selects hw).2 ⟨t, rfl, hr, hf⟩
  cases a with
  | execute runner id now body outcome =>
    obtain ⟨rfl, rfl⟩ := Prod.mk.inj (Option.some.inj ho)
    cases outcome with
    | returns result => exact ⟨body, _, rfl, rfl, rfl, final rfl⟩
    | waits => exact ⟨body, _, rfl, rfl, rfl, fun _ _ _ => rfl⟩
  | failureHandler runner id now body exc traceback =>
    obtain ⟨rfl, rfl⟩ := Prod.mk.inj (Option.some.inj ho)
    obtain ⟨hook, hst⟩ := failureHandler_stmts
    exact ⟨hook, _, hst, rfl, rfl, final rfl⟩
  | _ => cases ha

/-- A thread that has started its task and ends with a commit that has not left the task's row out
leaves the task landed. -/
theorem Begun.commit_lands (hi : Inv reg s) (hb : Begun s) {i : ℕ} {x : Txn Tx TaskId Task}
    (h : s.step reg (.db (.commit i)) = some s') (hx : s.db.txns i = some x)
    (hex : x.act.executes = true) (ho : x.act.owner = some (r, k)) (hs : k ∉ x.skipped) :
    ¬ Held r (s'.db.cur.row k) := by
  intro hh
  obtain ⟨y, hy, hn, hstep⟩ := Sys.step_commit h
  obtain rfl := Option.some.inj (hx.symm.trans hy)
  obtain ⟨body, w, hst, hlim, hends, hsel⟩ := execution_stmts reg x.locked hex ho
  -- the task was in flight when the transaction took its snapshot, and past its start
  obtain ⟨th, hm, hr, -⟩ := hi.owned i x r k hx ho
  obtain ⟨t, ht, htr, htf⟩ := hi.snap i x r k k hx ho (hi.held_back h hm hr hh)
  have hfin : ∀ {u : Task}, u.runnerId = some r → u.state = t.state →
      w.selects (some u) = true := fun hur hus =>
    hsel _ hur (hus ▸ (List.mem_cons.1 htf).resolve_left ((hb.txn i x r k hx hex ho).1 t ht htr))
  have hmem : (k, w) ∈ x.act.stmts reg x.snap x.locked := by
    rw [hst]
    exact List.mem_append_right _ (List.mem_singleton.2 rfl)
  have hlk : k ∈ x.locked := by
    rcases next_none hn hlim hmem with hL | hS | hno
    · exact hL
    · exact absurd hS hs
    · rw [ht, hfin htr rfl] at hno
      cases hno
  obtain ⟨b, hrun⟩ := commit_row hi.wf hstep hx hlk
  rw [acts_final hst] at hrun
  obtain ⟨p, hp, hlast⟩ := runActs_append hrun
  obtain ⟨q, hq, hend⟩ := runActs_cons hlast
  obtain rfl : q = (b, s'.db.cur.row k) := Except.ok.inj hend
  rcases RowAct.exec_run hq with ⟨hs, -, -⟩ | ⟨hno, heq⟩
  · exact ends_exec hends hs hq hh
  · -- task code does not take a task in flight to another state in flight
    obtain ⟨u, hu, hur, huf⟩ := hh
    rw [← heq] at hp hno
    obtain ⟨t', ht', hst'⟩ := users_same_state (fun _ hm => users_acts hm) hp hu huf
    rw [← (hi.wf.txn i x hx).locked_row hlk] at ht'
    obtain rfl := Option.some.inj (ht.symm.trans ht')
    rw [show (b, s'.db.cur.row k).2 = some u from hu, hfin hur hst'.symm] at hno
    cases hno

theorem Thread.ends_after {th : Thread} (h : (th.after s ev).phase = .ended) :
    th.phase = .ended ∨ th.givesUp s ev = true ∨
      ∃ i x, ev = .db (.commit i) ∧ s.db.txns i = some x ∧ x.act.executes = true ∧
        x.act.owner = some (th.runner, th.task) ∧ th.task ∉ x.skipped := by
  have hch := Thread.after_change s ev th
  generalize th.after s ev = th' at hch h
  cases hch with
  | same => exact .inl h
  | @begin a => cases a <;> first | exact .inl h | cases h
  | @skip _ x => cases hact : x.act <;> rw [hact] at h <;> exact .inl h
  | @commit i x hx ho =>
    by_cases hex : x.act.executes = true
    · by_cases hs : th.task ∈ x.skipped
      · refine .inr (.inl ?_)
        show (s.db.txns i).any _ = true
        rw [hx]
        exact decide_eq_true ⟨decide_eq_true ho, hex, hs⟩
      · exact .inr (.inr ⟨i, x, rfl, hx, hex, ho, hs⟩)
    · cases hact : x.act <;> rw [hact] at h hex <;>
        first | exact .inl h | exact absurd rfl hex | cases h
  | @abort i x hx ho =>
    by_cases hc : x.act.closes = true
    · refine .inr (.inl ?_)
      show (s.db.txns i).any _ = true
      rw [hx]
      exact decide_eq_true ⟨decide_eq_true ho, hc⟩
    · cases hact : x.act <;> rw [hact] at h hc <;>
        first | exact .inl h | exact absurd rfl hc | cases h
  | kill hp => exact .inr (.inl (decide_eq_true ⟨rfl, hp⟩))
  | finalize =>
    unfold Thread.finalize at h
    split_ifs at h <;> exact .inl h

/-! ## Removed threads -/

/-- If the row is in flight under `r`, it is `stuck`. -/
def Stuck (r : RunnerId) (o : Option Task) : Prop :=
  ∀ t, o = some t → t.runnerId = some r → t.state ∈ inFlightStates → t.state = .stuck

theorem Inv.stuck_step (hi : Inv reg s) (h : s.step reg ev = some s') {th : Thread}
    (hm : th ∈ s.threads) (hs : Stuck th.runner (s.db.cur.row k)) :
    Stuck th.runner (s'.db.cur.row k) := by
  intro t' ht' hr hf
  rcases Sys.row_cases hi.wf h k with hk | ⟨r', hc⟩
  · obtain ⟨t, ht, htf, htr, -, hrank⟩ := hk.flight t' ht' hf
    rw [hs t ht (htr.trans hr) htf] at hrank
    revert hf hrank
    cases t'.state <;> decide
  · -- a row that has just been claimed is under a new runner
    have hnew := (hc.thread h).1 th hm
    obtain ⟨_, _, _, _, _, _, _, _, _, _, t, _, _, hrow⟩ := hc
    rw [hrow] at ht'
    obtain rfl := Option.some.inj ht'
    exact absurd (Option.some.inj hr).symm hnew

theorem marked_iff {th : Thread} : s.marked th = true ↔
    (Held th.runner (s.db.cur.row th.task) → th.timedOut = true) ∧
      Stuck th.runner (s.db.cur.row th.task) := by
  unfold Sys.marked
  rw [decide_eq_true_eq]
  refine ⟨fun h => ⟨fun hh => (h hh).1, fun t ht hr hf => ?_⟩, fun ⟨htime, hs⟩ hh => ?_⟩
  · have := (h ⟨t, ht, hr, hf⟩).2
    rw [ht] at this
    exact Option.some.inj this
  · obtain ⟨t, ht, hr, hf⟩ := id hh
    rw [ht, Option.map_some, hs t ht hr hf]
    exact ⟨htime hh, rfl⟩

/-- A thread that has ended has timed out and left its task `stuck`, if the task is in flight at
all; a removed thread has no task in flight. A check of a resolved stuck thread has seen the task
`stuck`, if in flight, and has left its row out only when it was not. -/
structure Settled (s : Sys) : Prop where
  ended : ∀ th ∈ s.threads, th.phase = .ended → s.marked th = true
  resolving : ∀ th ∈ s.threads, th.tracked = .resolving → th.phase = .ended
  removed : ∀ th ∈ s.threads, th.tracked = .removed → ¬ Held th.runner (s.db.cur.row th.task)
  seen : ∀ i x r k now body, s.db.txns i = some x → x.act = .resolvedStuckThread r k now body →
    Stuck r (x.snap.row k)
  left : ∀ i x r k now body, s.db.txns i = some x → x.act = .resolvedStuckThread r k now body →
    k ∈ x.skipped → ¬ Held r (s.db.cur.row k)

theorem Start.settled (h : Start s) : Settled s where
  ended th hm := by rw [h.no_thread] at hm; exact absurd hm List.not_mem_nil
  resolving th hm := by rw [h.no_thread] at hm; exact absurd hm List.not_mem_nil
  removed th hm := by rw [h.no_thread] at hm; exact absurd hm List.not_mem_nil
  seen _ _ _ _ _ _ hx := absurd hx h.closed
  left _ _ _ _ _ _ hx := absurd hx h.closed

/-- How a thread comes to be removed. -/
theorem removed_after {th : Thread} (h : (th.after s ev).tracked = .removed) :
    th.tracked = .removed ∨
      (∃ i x now body, (ev = .db (.commit i) ∨ ev = .db (.abort i)) ∧ s.db.txns i = some x ∧
        x.act = .resolvedStuckThread th.runner th.task now body) ∨
      (ev = .finalizeCompleted th.worker ∧ th.tracked = .active ∧ th.phase = .ended ∧
        th.timedOut = false) := by
  cases th.after_marks s ev with
  | same _ htrack => exact .inl (htrack ▸ h)
  | timedOut i x alive hev hx hact _ htrack => exact .inl (htrack ▸ h)
  | recovering _ htrack => rw [htrack] at h; cases h
  | removed i x now body hev hx hact => exact .inr (.inl ⟨i, x, now, body, hev, hx, hact⟩)
  | finalize hev hactive hended _ htrack =>
    rw [htrack] at h
    split_ifs at h with ht
    exact .inr (.inr ⟨hev, hactive, hended, Bool.eq_false_iff.2 ht⟩)

theorem recovery_selects {now : ℕ} {error : String} {o : Option Task} (h : Held r o) :
    (RowAct.lostExecution (some r) none now error).selects o = true := by
  obtain ⟨t, rfl, hr, hf⟩ := h
  exact finalizable_iff.2 ⟨hf, fun _ hq => hq ▸ hr, nofun⟩

/-- After a recovery of `r` the row is not in flight under `r`, whatever else is done to it. -/
theorem recovered_row {now : ℕ} {error : String} {acts : List RowAct} {p q : Bool × Option Task}
    (ha : ∀ a ∈ acts, a.plain k = true)
    (hm : RowAct.lostExecution (some r) none now error ∈ acts) (h : runActs reg acts p = .ok q) :
    ¬ Held r q.2 := by
  induction acts generalizing p with
  | nil => exact absurd hm List.not_mem_nil
  | cons a acts ih =>
    obtain ⟨p', hp', hrest⟩ := runActs_cons h
    have ha' : ∀ a ∈ acts, a.plain k = true := fun a hm => ha a (List.mem_cons_of_mem _ hm)
    rcases List.mem_cons.1 hm with rfl | hm
    · refine fun hq => ?_
      have hheld := (runActs_kept ha' hrest).held hq
      have hp := (RowAct.exec_kept (ha _ List.mem_cons_self) hp').held hheld
      have hset : (RowAct.lostExecution (some r) none now error).settles r = true :=
        decide_eq_true rfl
      exact settles_exec hset (recovery_selects hp) hp' hheld
    · exact ih ha' hm hrest

/-- The check of a resolved stuck thread that commits leaves nothing in flight under the thread. -/
theorem Settled.checked (hi : Inv reg s) (hs : Settled s) {i : ℕ} {x : Txn Tx TaskId Task}
    {now : ℕ} {body : List (TaskId × UserAct)} (h : s.step reg (.db (.commit i)) = some s')
    (hx : s.db.txns i = some x) (hact : x.act = .resolvedStuckThread r k now body) :
    ¬ Held r (s'.db.cur.row k) := by
  intro hh
  obtain ⟨y, hy, hn, hstep⟩ := Sys.step_commit h
  obtain rfl := Option.some.inj (hx.symm.trans hy)
  obtain ⟨th, hm, hr, -⟩ := hi.owned i x r k hx (by rw [hact]; rfl)
  have hcur := hi.held_back h hm hr hh
  have hsnap := hi.snap i x r k k hx (by rw [hact]; rfl) hcur
  obtain ⟨t, ht, htr, htf⟩ := id hsnap
  have hstuck := hs.seen i x r k now body hx hact t ht htr htf
  have hany : (x.snap.row k).any (fun t => t.state = .stuck ∧ t.runnerId = some r) = true := by
    rw [ht]
    exact decide_eq_true ⟨hstuck, htr⟩
  have hstmt : (k, RowAct.lostExecution (some r) none now resolvedStuckError) ∈
      x.act.stmts reg x.snap x.locked := by
    rw [hact]
    simp only [Tx.stmts, hany, if_true]
    exact List.mem_cons_self
  rcases next_none hn (by rw [hact]; rfl) hstmt with hL | hS | hsel
  · obtain ⟨b, hrun⟩ := commit_row hi.wf hstep hx hL
    have hplain : ∀ a ∈ x.act.acts reg x.snap x.locked k, a.plain k = true :=
      plain_acts fun c rank uuid heq => by rw [hact] at heq; cases heq
    exact recovered_row hplain (mem_acts.2 hstmt) hrun hh
  · exact hs.left i x r k now body hx hact hS hcur
  · rw [recovery_selects hsnap] at hsel; cases hsel

/-- A thread that has ended leaves its task landed, or `stuck` and the thread timed out. -/
theorem Settled.step_ended (hi : Inv reg s) (hb : Begun s) (hs : Settled s)
    (hok : s.endsHandled ev = true) (h : s.step reg ev = some s') {th : Thread}
    (hm : th ∈ s.threads) (hph : (th.after s ev).phase = .ended) :
    s'.marked (th.after s ev) = true := by
  have kept : s.marked th = true → s'.marked (th.after s ev) = true := by
    intro hmark
    obtain ⟨htime, hst⟩ := marked_iff.1 hmark
    obtain ⟨hr, hk, -⟩ := th.after_same s ev
    rw [marked_iff, hr, hk]
    exact ⟨fun hh => timedOut_stays (htime (hi.held_back h hm rfl hh)), hi.stuck_step h hm hst⟩
  rcases Thread.ends_after hph with hph | hup | ⟨i, x, rfl, hx, hex, ho, hskip⟩
  · exact kept (hs.ended th hm hph)
  · rw [Sys.endsHandled, Bool.and_eq_true, List.all_eq_true] at hok
    exact kept (of_decide_eq_true (hok.1 th hm) hup)
  · have hno := hb.commit_lands hi h hx hex ho hskip
    obtain ⟨hr, hk, -⟩ := th.after_same s (.db (.commit i))
    rw [marked_iff, hr, hk]
    exact ⟨fun hh => absurd hh hno, fun t ht hr hf => absurd ⟨t, ht, hr, hf⟩ hno⟩

theorem Settled.step (hi : Inv reg s) (hbusy : Busy s) (hb : Begun s) (hs : Settled s)
    (hok : s.endsHandled ev = true) (h : s.step reg ev = some s') : Settled s' where
  ended th' hm' hph := by
    rcases Sys.step_thread h hm' with ⟨th, hm, rfl⟩ | ⟨i, x, -, -, hsp⟩
    · exact hs.step_ended hi hb hok h hm hph
    · obtain ⟨c, rank, uuid, -, -, hth⟩ := mem_spawned hsp
      rw [hth] at hph
      cases hph
  resolving th' hm' ht := by
    rcases Sys.step_thread h hm' with ⟨th, hm, rfl⟩ | ⟨i, x, -, -, hsp⟩
    · refine ended_after hi hbusy h hm ?_
      exact (resolving_after ht).elim (hs.resolving th hm) id
    · obtain ⟨c, rank, uuid, -, -, hth⟩ := mem_spawned hsp
      rw [hth] at ht
      cases ht
  removed th' hm' ht := by
    rcases Sys.step_thread h hm' with ⟨th, hm, rfl⟩ | ⟨i, x, -, -, hsp⟩
    · obtain ⟨hr, hk, -⟩ := th.after_same s ev
      rw [hr, hk]
      have back := fun hno : ¬ Held th.runner (s.db.cur.row th.task) =>
        fun hh => hno (hi.held_back h hm rfl hh)
      rcases removed_after ht with ht | ⟨i, x, now, body, rfl | rfl, hx, hact⟩ |
        ⟨rfl, hactive, hended, htime⟩
      · exact back (hs.removed th hm ht)
      · exact hs.checked hi h hx hact
      · refine back fun hh => ?_
        simp [Sys.endsHandled, Sys.checksThrough, Sys.checksHeld, hx, hact, hh] at hok
      · refine back fun hh => ?_
        rw [(marked_iff.1 (hs.ended th hm hended)).1 hh] at htime
        cases htime
    · obtain ⟨c, rank, uuid, -, -, hth⟩ := mem_spawned hsp
      rw [hth] at ht
      cases ht
  seen i x r k now body hx hact := by
    rcases Sys.step_txn h hx with ⟨y, hy, hya, hsnap⟩ | ⟨-, hsnap, -, hallow, -⟩
    · rw [hsnap]
      exact hs.seen i y r k now body hy (hya ▸ hact)
    · -- the check begins when its thread has ended
      rw [hact] at hallow
      obtain ⟨th, hm, rfl, rfl, hready⟩ := allows_owner hallow rfl
      rw [hsnap]
      exact (marked_iff.1 (hs.ended th hm (hs.resolving th hm (of_decide_eq_true hready)))).2
  left i x r k now body hx hact hk hh := by
    obtain ⟨y, hy, hya, -, hcase⟩ := Sys.step_skipped h hx hk
    obtain ⟨th, hm, hr, -⟩ := hi.owned i y r k hy (by rw [← hya, hact]; rfl)
    have hcur := hi.held_back h hm hr hh
    rcases hcase with hS | ⟨rfl, -, -⟩
    · exact hs.left i y r k now body hy (hya ▸ hact) hS hcur
    · rw [hya] at hact
      simp [Sys.endsHandled, Sys.checksThrough, Sys.checksHeld, hy, hact, hcur] at hok

theorem Settled.path {es : List Ev} (h0 : Start s)
    (hp : Path (Sys.step reg) (fun s ev => s.endsHandled ev = true) s es s') : Settled s' :=
  hp.inv_of (J := fun s => Inv reg s ∧ Busy s ∧ Begun s)
    (fun _ _ _ hj _ h => ⟨hj.1.step h, hj.2.1.step hj.1 h, hj.2.2.step hj.1 h⟩)
    (fun _ _ _ hj hs hok h => hs.step hj.1 hj.2.1 hj.2.2 hok h) ⟨h0.inv, h0.busy, h0.begun⟩
    h0.settled

/-- **Removed threads.** In every run in which threads end as `endsHandled` says, no task is in
flight under the runner of a removed thread. -/
theorem removed_not_held {es : List Ev} (h0 : Start s)
    (hp : Path (Sys.step reg) (fun s ev => s.endsHandled ev = true) s es s') :
    ∀ th ∈ s'.threads, th.tracked = .removed → ¬ Held th.runner (s'.db.cur.row th.task) :=
  (Settled.path h0 hp).removed

/-- Timed out, marked stuck, and its thread gone: the supervisor recovers the task. -/
def timedOutRun : List Ev := [
  .db (.begin (.claimTask (exportClaim 1) id fun _ => 7)), .db (.lock 0), .db (.commit 0),
  .db (.begin (.actionStart 7 1 101)), .db (.lock 1), .db (.commit 1),
  .db (.begin (.timeoutTask 7 1 true)), .db (.lock 2), .db (.commit 2), .kill 7,
  .finalizeCompleted 1,
  .db (.begin (.resolvedStuckThread 7 1 900 [])), .db (.lock 3), .db (.commit 3)]

theorem timedOutRun_removed : ∃ s th, Path (Sys.step []) (fun s ev => s.endsHandled ev = true)
      (Sys.init oneTask) timedOutRun s ∧ th ∈ s.threads ∧ th.tracked = .removed ∧
    ¬ Held th.runner (s.db.cur.row th.task) := by
  have hp : Path (Sys.step []) (fun s ev => s.endsHandled ev = true) (Sys.init oneTask)
      timedOutRun _ := path_reached (by decide +kernel)
  exact ⟨_, _, hp, List.mem_cons_self, rfl,
    removed_not_held (Start.init (by decide)) hp _ List.mem_cons_self rfl⟩

/-- Claimed, and `action_start` fails. -/
def failedStart : List Ev := [
  .db (.begin (.claimTask (exportClaim 1) id fun _ => 7)), .db (.lock 0), .db (.commit 0),
  .db (.begin (.actionStart 7 1 101)), .db (.abort 1), .finalizeCompleted 1]

/-- The thread is removed and the task stays assigned. -/
theorem failed_start_lost : ∃ s th, Path (Sys.step []) anyStep (Sys.init oneTask) failedStart s ∧
    th ∈ s.threads ∧ th.tracked = .removed ∧ Held th.runner (s.db.cur.row th.task) ∧
    (s.db.cur.row 1).map Task.state = some .assigned := by
  have hp : Path (Sys.step []) anyStep (Sys.init oneTask) failedStart _ :=
    path_reached (by decide +kernel)
  exact ⟨_, _, hp, List.mem_cons_self, rfl, by decide +kernel, rfl⟩

end GenericTaskQueue
