import GenericBackground.TaskQueue.ChildReports
import GenericBackground.TaskQueue.LiveThread

/-!
# Overdue threads

In each cycle the supervisor goes through its threads that have run for longer than their timeout
(`_check_timeouts`), and in a transaction for each (`_timeout_task`) marks the task `stuck` if the
thread is alive and the task running. Whatever comes of the transaction, the thread counts as
timed out from then on, and no later cycle looks at it.

So a thread may run on for ever, its task never marked: when the transaction has failed
(`swallowed`), or when the timeout ran out before the thread had started the task. As long as
`_timeout_task` finds the tasks of overdue threads running and goes through (`Supervised.prompt`),
every cycle ends with the tasks of its overdue threads `stuck`, unless their threads or a canceller
have written them since (`overdue_marked`).
-/

namespace GenericTaskQueue

open RowStore Lts

variable {reg : Registry} {r : RunnerId} {k : TaskId} {w : WorkerId}

/-! ## Cycles -/

/-- `start_time` and `timeout` of the threads. -/
structure Clock where
  start : RunnerId → ℕ
  timeout : RunnerId → ℤ

/-- `timeout > 0` and `elapsed > timeout`. -/
def Clock.overdue (C : Clock) (now : ℕ) (r : RunnerId) : Bool :=
  0 < C.timeout r ∧ C.timeout r < (now : ℤ) - C.start r

/-- A cycle from its `_check_timeouts` on: the runners of the threads that `_timeout_task` is still
to handle, and its open transaction; whether none of these has failed. `due` are the threads that
were alive and overdue, and their tasks running, when the check began; `wrote` those of them that
have taken the task out of its execution since. -/
structure Cycle where
  todo : List RunnerId
  current : Option ℕ := none
  ok : Bool := true
  due : List (RunnerId × TaskId)
  wrote : List (RunnerId × TaskId) := []
  deriving DecidableEq, Repr

/-- The system, and where the supervisor of a worker is in its cycle. -/
structure Supervised where
  sys : Sys
  cycle : Option Cycle

inductive CycleEv where
  | sys (ev : Ev)
  | checkTimeouts (now : ℕ)
  | endCycle

def Unmarked (r : RunnerId) (o : Option Task) : Prop :=
  ∃ t, o = some t ∧ t.runnerId = some r ∧ (t.state = .assigned ∨ t.state = .running)

instance (r : RunnerId) (o : Option Task) : Decidable (Unmarked r o) :=
  decidable_of_iff
    (o.any fun t => t.runnerId = some r ∧ (t.state = .assigned ∨ t.state = .running))
    (by unfold Unmarked; rw [Option.any_eq_true]; simp)

def runsUnder (r : RunnerId) (o : Option Task) : Bool :=
  o.any fun t => t.runnerId = some r ∧ t.state = .running

/-- The loop of `_check_timeouts` skips the threads that have timed out already, and those whose
time has not run out. New threads are appended to `_active_tasks`. -/
def Sys.checkTimeouts (C : Clock) (w : WorkerId) (now : ℕ) (s : Sys) : Cycle where
  todo := (s.threads.reverse.filter fun th => th.worker = w ∧ th.tracked = .active ∧
    th.timedOut = false ∧ C.overdue now th.runner = true).map Thread.runner
  due := (s.threads.filter fun th => th.worker = w ∧ th.tracked = .active ∧ th.phase ≠ .ended ∧
    C.overdue now th.runner = true ∧ runsUnder th.runner (s.db.cur.row th.task) = true).map
      fun th => (th.runner, th.task)

/-- The thread of worker `w` that a `_timeout_task` handles. -/
def Sys.handles (s : Sys) (w : WorkerId) : Tx → Option (RunnerId × TaskId)
  | .timeoutTask r k _ =>
    if s.threads.any fun th => th.runner = r ∧ th.worker = w then some (r, k) else none
  | _ => none

/-- The supervisor of `w` is one thread: it handles the overdue threads one after another within
the check, and finalizes outside of it. -/
def Supervised.permits (w : WorkerId) (s : Supervised) : Ev → Bool
  | .db (.begin a) => (s.sys.handles w a).all fun p =>
      s.cycle.any fun c => c.current = none ∧ c.todo.head? = some p.1
  | .finalizeCompleted w' => w' ≠ w ∨ s.cycle = none
  | _ => true

/-- The transaction is one in which the thread executes its task, or handles its failure. -/
def Tx.ownBy (a : Tx) (p : RunnerId × TaskId) : Bool := a.executes ∧ a.owner = some p

/-- `_timeout_task` comes to its end. -/
def Cycle.handled (c : Cycle) (ok : Bool) : Cycle :=
  { c with todo := c.todo.tail, current := none, ok := c.ok && ok }

/-- The threads that take their tasks out of their executions in a commit. -/
def Cycle.leaving (c : Cycle) (s s' : Sys) (i : ℕ) : List (RunnerId × TaskId) :=
  c.due.filter fun p => (s.db.txns i).any (fun x => x.act.ownBy p) ∧
    s'.db.cur.row p.2 ≠ s.db.cur.row p.2 ∧ ¬ Held p.1 (s'.db.cur.row p.2)

/-- What an event that leads from `s` to `s'` changes in the cycle. -/
def Cycle.after (w : WorkerId) (s s' : Sys) (ev : Ev) (c : Cycle) : Cycle :=
  match ev with
  | .db (.begin a) => if (s.handles w a).isSome then { c with current := some s.db.nextId } else c
  | .db (.commit i) =>
    let c' := { c with wrote := c.wrote ++ c.leaving s s' i }
    if c.current = some i then c'.handled true else c'
  | .db (.abort i) => if c.current = some i then c.handled false else c
  | _ => c

def Supervised.step (reg : Registry) (C : Clock) (w : WorkerId) (s : Supervised) (e : CycleEv) :
    Option Supervised :=
  match e with
  | .sys ev => if s.permits w ev then
      (s.sys.step reg ev).map fun s' => ⟨s', s.cycle.map (Cycle.after w s.sys s' ev)⟩ else none
  | .checkTimeouts now => if s.cycle = none then
      some ⟨s.sys, some (s.sys.checkTimeouts C w now)⟩ else none
  | .endCycle => if s.cycle.any fun c => c.todo = [] ∧ c.current = none then
      some ⟨s.sys, none⟩ else none

/-- The thread's task is `stuck`, or in a state that the thread or a canceller has written. -/
def Supervised.answered (s : Supervised) (c : Cycle) (p : RunnerId × TaskId) : Prop :=
  p ∈ c.wrote ∨ ∃ t, s.sys.db.cur.row p.2 = some t ∧
    (t.state = .stuck ∧ t.runnerId = some p.1 ∨ t.state = .cancelled)

instance (s : Supervised) (c : Cycle) (p : RunnerId × TaskId) : Decidable (s.answered c p) :=
  decidable_of_iff (p ∈ c.wrote ∨ (s.sys.db.cur.row p.2).any fun t =>
    t.state = .stuck ∧ t.runnerId = some p.1 ∨ t.state = .cancelled)
    (by unfold Supervised.answered; rw [Option.any_eq_true]; simp)

/-- Crash recovery, deletion, and `action_wait_children`, which asks for no runner. -/
def RowAct.disowns : RowAct → Bool
  | .user .unlink => true
  | .lostExecution _ _ _ _ => true
  | .waitChildren => true
  | _ => false

/-- When `_timeout_task` takes up a thread with its task in flight and not marked, the thread is
alive and the task running; and it does not fail as long as the task is so. -/
def Sys.timely (w : WorkerId) (s : Sys) : Ev → Bool
  | .db (.begin (.timeoutTask r k alive)) =>
    (s.handles w (.timeoutTask r k alive)).isSome = true → Unmarked r (s.db.cur.row k) →
      alive = true ∧ runsUnder r (s.db.cur.row k) = true
  | .db (.abort i) => (s.db.txns i).all fun x =>
    (s.handles w x.act).all fun p => ¬ Unmarked p.1 (s.db.cur.row p.2)
  | _ => true

/-- Only its own thread disowns a task. -/
def Sys.spares (reg : Registry) (due : List (RunnerId × TaskId)) (s : Sys) : Ev → Bool
  | .db (.commit i) => (s.db.txns i).all fun x => due.all fun p => p.2 ∈ x.locked →
      x.act.ownBy p = true ∨ ∀ a ∈ x.act.acts reg x.snap x.locked p.2, a.disowns = false
  | _ => true

/-- The supervisor handles the overdue threads in time, and leaves their tasks to them until the
cycle ends. -/
def Supervised.prompt (reg : Registry) (w : WorkerId) (s : Supervised) : CycleEv → Bool
  | .sys ev => s.sys.timely w ev && s.sys.spares reg (s.cycle.elim [] Cycle.due) ev
  | _ => true

/-! ## Threads that have timed out -/

variable {s s' : Sys} {ev : Ev} {th : Thread}

theorem handles_iff {a : Tx} {p : RunnerId × TaskId} : s.handles w a = some p ↔
    (∃ alive, a = .timeoutTask p.1 p.2 alive) ∧ ∃ th ∈ s.threads, th.runner = p.1 ∧
      th.worker = w := by
  cases a with
  | timeoutTask r k alive =>
    simp only [Sys.handles, List.any_eq_true, decide_eq_true_eq, Option.ite_none_right_eq_some,
      Option.some.injEq]
    constructor
    · rintro ⟨hth, rfl⟩
      exact ⟨⟨alive, rfl⟩, hth⟩
    · rintro ⟨⟨alive', heq⟩, hth⟩
      obtain ⟨rfl, rfl, -⟩ := Tx.timeoutTask.inj heq
      exact ⟨hth, rfl⟩
  | _ => simp [Sys.handles]

theorem timedOut_after (h : (th.after s ev).timedOut = true) : th.timedOut = true ∨
    ∃ i x alive, (ev = .db (.commit i) ∨ ev = .db (.abort i)) ∧ s.db.txns i = some x ∧
      x.act = .timeoutTask th.runner th.task alive := by
  cases th.after_marks s ev with
  | timedOut i x alive hev hx hact => exact .inr ⟨i, x, alive, hev, hx, hact⟩
  | same htime => exact .inl (htime ▸ h)
  | recovering htime => exact .inl (htime ▸ h)
  | removed _ _ _ _ _ _ _ htime => exact .inl (htime ▸ h)
  | finalize _ _ _ htime => exact .inl (htime ▸ h)

theorem Unmarked.before (hi : Inv reg s) (h : s.step reg ev = some s') (hm : th ∈ s.threads)
    (hu : Unmarked th.runner (s'.db.cur.row k)) : Unmarked th.runner (s.db.cur.row k) := by
  obtain ⟨t', ht', hr', hs'⟩ := hu
  have hf' : t'.state ∈ inFlightStates := by
    rcases hs' with hs' | hs' <;> rw [hs'] <;> decide
  rcases Sys.row_cases hi.wf h k with hk | ⟨r', hc⟩
  · obtain ⟨t, ht, hf, hr, -, hrank⟩ := hk.flight t' ht' hf'
    refine ⟨t, ht, hr.trans hr', ?_⟩
    have h1 : flightRank t'.state ≤ 1 := by
      rcases hs' with hs' | hs' <;> rw [hs'] <;> decide
    have h2 := Nat.le_trans hrank h1
    revert hf h2
    cases t.state <;> decide
  · obtain ⟨_, _, _, _, _, _, _, _, _, _, t, _, _, hrow⟩ := id hc
    rw [hrow] at ht'
    obtain rfl := Option.some.inj ht'
    exact absurd (Option.some.inj hr').symm ((hc.thread h).1 th hm)

/-- The tasks of timed-out threads of `w` are marked, or not in flight any more; and a
`_timeout_task` for one that is not has found it running, and its thread alive. -/
structure Handled (w : WorkerId) (s : Sys) : Prop where
  flagged : ∀ th ∈ s.threads, th.worker = w → th.timedOut = true →
    ¬ Unmarked th.runner (s.db.cur.row th.task)
  seen : ∀ i x alive, ∀ th ∈ s.threads, s.db.txns i = some x → th.worker = w →
    x.act = .timeoutTask th.runner th.task alive → Unmarked th.runner (s.db.cur.row th.task) →
      alive = true ∧ runsUnder th.runner (x.snap.row th.task) = true

theorem Start.handled (h : Start s) : Handled w s where
  flagged th hm := by rw [h.no_thread] at hm; exact absurd hm List.not_mem_nil
  seen _ _ _ _ _ hx := absurd hx h.closed

theorem runsUnder_iff {o : Option Task} :
    runsUnder r o = true ↔ ∃ t, o = some t ∧ t.runnerId = some r ∧ t.state = .running := by
  unfold runsUnder
  rw [Option.any_eq_true]
  simp

theorem Handled.marks (hi : Inv reg s) (hh : Handled w s) {i : ℕ} {x : Txn Tx TaskId Task}
    {alive : Bool} (h : s.step reg (.db (.commit i)) = some s') (hx : s.db.txns i = some x)
    (hm : th ∈ s.threads) (hw : th.worker = w)
    (hact : x.act = .timeoutTask th.runner th.task alive) :
    ¬ Unmarked th.runner (s'.db.cur.row th.task) := by
  intro hu
  obtain ⟨rfl, hrun⟩ := hh.seen i x alive th hm hx hw hact (hu.before hi h hm)
  obtain ⟨t, ht, -, hst⟩ := runsUnder_iff.1 hrun
  obtain ⟨y, hy, hn, hstep⟩ := Sys.step_commit h
  obtain rfl := Option.some.inj (hx.symm.trans hy)
  have hstmts : ∀ L, x.act.stmts reg x.snap L = [(th.task, .stuck)] := fun L => by rw [hact]; rfl
  have hsel : RowAct.stuck.selects (x.snap.row th.task) = true := by
    rw [ht]
    exact decide_eq_true hst
  rcases next_none hn (by rw [hact]; rfl) (hstmts _ ▸ List.mem_singleton_self _) with hL | hS | hno
  · obtain ⟨b, hrun⟩ := commit_row hi.wf hstep hx hL
    have hacts : x.act.acts reg x.snap x.locked th.task = [.stuck] := by
      simp [Tx.acts, hstmts]
    obtain ⟨p', hp', hnil⟩ := runActs_cons (hacts ▸ hrun)
    obtain rfl := Except.ok.inj hnil
    rw [← (hi.wf.txn i x hx).locked_row hL] at hp'
    have hmark := RowAct.exec_selected hsel hp'
    rw [ht] at hmark
    obtain ⟨-, heq⟩ := checked_row hmark
    obtain ⟨u, hrow, -, hu⟩ := hu
    obtain rfl := Option.some.inj (heq.symm.trans hrow)
    rcases hu with hu | hu <;> cases hu
  · -- it waits for the row, and never leaves it out
    obtain ⟨L, S, hask⟩ := (hi.wf.txn i x hx).left _ hS
    obtain ⟨act, hmem, hmode, -⟩ := next_some hask
    rw [hstmts] at hmem
    obtain ⟨-, rfl⟩ := Prod.mk.inj (List.mem_singleton.1 hmem)
    cases hmode
  · rw [hsel] at hno
    cases hno

theorem Inv.thread_before (hi : Inv reg s) (h : s.step reg ev = some s') {th' : Thread}
    (hm' : th' ∈ s'.threads) (hm : th ∈ s.threads) (hr : th.runner = th'.runner) :
    th' = th.after s ev :=
  (hi.step h).same_thread hm' (Sys.step_keeps_thread h hm)
    (hr.symm.trans (th.after_same s ev).1.symm)

theorem Handled.step (hi : Inv reg s) (hh : Handled w s) (hok : s.timely w ev = true)
    (h : s.step reg ev = some s') : Handled w s' where
  flagged th' hm' hw ht hu := by
    rcases Sys.step_thread h hm' with ⟨th, hm, rfl⟩ | ⟨i, x, -, -, hsp⟩
    · obtain ⟨h1, h2, h3⟩ := th.after_same s ev
      rw [h1, h2] at hu
      rw [h3] at hw
      have hb := hu.before hi h hm
      rcases timedOut_after ht with ht | ⟨i, x, alive, rfl | rfl, hx, hact⟩
      · exact hh.flagged th hm hw ht hb
      · exact hh.marks hi h hx hm hw hact hu
      · have hhd : s.handles w x.act = some (th.runner, th.task) :=
          handles_iff.2 ⟨⟨alive, hact⟩, th, hm, rfl, hw⟩
        simp only [Sys.timely, hx, Option.all_some, hhd, decide_eq_true_eq] at hok
        exact hok hb
    · obtain ⟨c, rank, uuid, -, -, hth⟩ := mem_spawned hsp
      rw [hth] at ht
      cases ht
  seen i x alive th' hm' hx hw hact hu := by
    have ho : x.act.owner = some (th'.runner, th'.task) := by rw [hact]; rfl
    rcases Sys.step_txn h hx with ⟨y, hy, hya, hsnap⟩ | ⟨rfl, hsnap, hcur, ha, -⟩
    · obtain ⟨th, hm, hr, hk⟩ := hi.owned i y _ _ hy (hya ▸ ho)
      obtain rfl := hi.thread_before h hm' hm hr
      rw [← hr, ← hk] at hu hact
      rw [← hr, hsnap, ← hk]
      exact hh.seen i y alive th hm hy ((th.after_same s ev).2.2 ▸ hw) (hya ▸ hact)
        (hu.before hi h hm)
    · obtain ⟨th, hm, hr, hk, -⟩ := allows_owner ha ho
      obtain rfl := hi.thread_before h hm' hm hr
      rw [← hr, ← hk] at hu hact
      rw [← hr, hsnap, ← hk]
      have hhd : s.handles w (.timeoutTask th.runner th.task alive) = some (th.runner, th.task) :=
        handles_iff.2 ⟨⟨alive, rfl⟩, th, hm, rfl, (th.after_same s _).2.2 ▸ hw⟩
      simp only [hact, Sys.timely, hhd, Option.isSome_some, decide_eq_true_eq] at hok
      exact hok trivial (hcur ▸ hu)

/-! ## The threads that are due -/

/-- `_timeout_task` is at the thread at the head of the list; a due thread has timed out, or is
still in the list; and its task is its own, or cancelled, or the thread has written it. -/
structure Due (w : WorkerId) (s : Sys) (c : Cycle) : Prop where
  current : ∀ i, c.current = some i → ∃ x alive, ∃ th ∈ s.threads, s.db.txns i = some x ∧
    th.worker = w ∧ x.act = .timeoutTask th.runner th.task alive ∧ c.todo.head? = some th.runner
  thread : ∀ p ∈ c.due, ∃ th ∈ s.threads, th.runner = p.1 ∧ th.task = p.2 ∧ th.worker = w ∧
    (th.timedOut = true ∨ p.1 ∈ c.todo)
  row : ∀ p ∈ c.due, p ∈ c.wrote ∨ ∃ t, s.db.cur.row p.2 = some t ∧ Carries p.1 t

theorem due_start (C : Clock) (now : ℕ) : Due w s (s.checkTimeouts C w now) where
  current _ hc := by cases hc
  thread p hp := by
    obtain ⟨th, hm, rfl⟩ := List.mem_map.1 hp
    obtain ⟨hm, hth⟩ := List.mem_filter.1 hm
    obtain ⟨hw, hactive, -, hover, -⟩ := of_decide_eq_true hth
    refine ⟨th, hm, rfl, rfl, hw, ?_⟩
    by_cases ht : th.timedOut = true
    · exact .inl ht
    · exact .inr (List.mem_map_of_mem (List.mem_filter.2 ⟨List.mem_reverse.2 hm,
        decide_eq_true ⟨hw, hactive, Bool.eq_false_iff.2 ht, hover⟩⟩))
  row p hp := by
    obtain ⟨th, hm, rfl⟩ := List.mem_map.1 hp
    obtain ⟨-, hth⟩ := List.mem_filter.1 hm
    obtain ⟨-, -, -, -, hrun⟩ := of_decide_eq_true hth
    obtain ⟨t, ht, hr, hs⟩ := runsUnder_iff.1 hrun
    exact .inr ⟨t, ht, .inl ⟨hr, by rw [hs]; decide⟩⟩

section Cycle

variable {c : Cycle} {i : ℕ} {p : RunnerId × TaskId}

theorem Cycle.after_due : (c.after w s s' ev).due = c.due := by
  unfold Cycle.after
  split
  · split_ifs <;> rfl
  · dsimp only
    split_ifs <;> rfl
  · split_ifs <;> rfl
  · rfl

theorem Cycle.after_wrote (h : p ∈ c.wrote) : p ∈ (c.after w s s' ev).wrote := by
  unfold Cycle.after
  split
  · split_ifs <;> exact h
  · dsimp only
    split_ifs <;> exact List.mem_append_left _ h
  · split_ifs <;> exact h
  · exact h

theorem Cycle.after_leaving (h : p ∈ c.leaving s s' i) :
    p ∈ (c.after w s s' (.db (.commit i))).wrote := by
  unfold Cycle.after
  dsimp only
  split_ifs <;> exact List.mem_append_right _ h

theorem Cycle.after_todo (c : Cycle) (w : WorkerId) (s s' : Sys) (ev : Ev) :
    (c.after w s s' ev).todo = c.todo ∨
    ∃ i, (ev = .db (.commit i) ∨ ev = .db (.abort i)) ∧ c.current = some i ∧
      (c.after w s s' ev).todo = c.todo.tail := by
  unfold Cycle.after
  split
  · split_ifs <;> exact .inl rfl
  · next i =>
    dsimp only
    split_ifs with hc
    · exact .inr ⟨i, .inl rfl, hc, rfl⟩
    · exact .inl rfl
  · next i =>
    split_ifs with hc
    · exact .inr ⟨i, .inr rfl, hc, rfl⟩
    · exact .inl rfl
  · exact .inl rfl

theorem Cycle.after_current (h : (c.after w s s' ev).current = some i) :
    (c.current = some i ∧ ev ≠ .db (.commit i) ∧ ev ≠ .db (.abort i)) ∨
      ∃ a p, ev = .db (.begin a) ∧ s.handles w a = some p ∧ i = s.db.nextId := by
  unfold Cycle.after at h
  split at h
  · next a =>
    split_ifs at h with ha
    · obtain ⟨p, hp⟩ := Option.isSome_iff_exists.1 ha
      exact .inr ⟨a, p, rfl, hp, (Option.some.inj h).symm⟩
    · exact .inl ⟨h, nofun, nofun⟩
  · next j =>
    dsimp only at h
    split_ifs at h with hc
    · cases h
    · refine .inl ⟨h, fun he => ?_, nofun⟩
      obtain rfl := RowStore.Event.commit.inj (Ev.db.inj he)
      exact hc h
  · next j =>
    split_ifs at h with hc
    · cases h
    · refine .inl ⟨h, nofun, fun he => ?_⟩
      obtain rfl := RowStore.Event.abort.inj (Ev.db.inj he)
      exact hc h
  · next h1 h2 h3 =>
    exact .inl ⟨h, fun he => h2 _ he, fun he => h3 _ he⟩

/-- A statement that does not disown the task, nor is a final write of its thread. -/
theorem disowns_lands {x : Txn Tx TaskId Task} (hown : x.act.ownBy p = false) {a : RowAct}
    (hm : a ∈ x.act.acts reg x.snap x.locked p.2) (ha : a.disowns = false) :
    a.lands p.1 = false := by
  have hiss := stmts_issues (mem_acts.1 hm)
  have hne : ∀ {r}, x.act.executes = true → x.act.owner = some (r, p.2) → r ≠ p.1 := by
    rintro r hex ho rfl
    rw [Tx.ownBy, decide_eq_false_iff_not] at hown
    exact hown ⟨hex, ho⟩
  generalize x.act = act at hiss hne
  cases hiss with
  | done r now body result => exact decide_eq_false (hne rfl rfl)
  | failure r now body exc tb => exact decide_eq_false (hne rfl rfl)
  | waitChildren => cases ha
  | recovered => cases ha
  | resolved => cases ha
  | _ => rfl

theorem due_row (hi : Inv reg s) (hok : s.spares reg c.due ev = true)
    (h : s.step reg ev = some s') (hp : p ∈ c.due) {t : Task} (ht : s.db.cur.row p.2 = some t)
    (hc : Carries p.1 t) : p ∈ (c.after w s s' ev).wrote ∨
      ∃ t', s'.db.cur.row p.2 = some t' ∧ Carries p.1 t' := by
  rcases Sys.row_plain hi h p.2 with hsame | ⟨r, hcl⟩ | ⟨i, x, b, rfl, hx, -, hk, hnc, hrun⟩
  · exact .inr ⟨t, hsame ▸ ht, hc⟩
  · -- a claim takes pending tasks
    obtain ⟨_, _, _, _, _, _, _, _, _, _, u, hu, hpend, -⟩ := hcl
    obtain rfl := Option.some.inj (ht.symm.trans hu)
    have := hc.state
    simp [hpend] at this
  · simp only [Sys.spares, hx, Option.all_some, List.all_eq_true, decide_eq_true_eq] at hok
    rcases Bool.eq_false_or_eq_true (x.act.ownBy p) with hown | hown
    · by_cases hsame : s'.db.cur.row p.2 = s.db.cur.row p.2
      · exact .inr ⟨t, hsame ▸ ht, hc⟩
      · by_cases hheld : Held p.1 (s'.db.cur.row p.2)
        · obtain ⟨t', ht', hh⟩ := hheld
          exact .inr ⟨t', ht', .inl hh⟩
        · refine .inl (Cycle.after_leaving (List.mem_filter.2 ⟨hp, decide_eq_true ?_⟩))
          exact ⟨by rw [hx]; exact hown, hsame, hheld⟩
    · have hmild := (hok p hp hk).resolve_left (by rw [hown]; exact Bool.false_ne_true)
      have hplain : ∀ a ∈ x.act.acts reg x.snap x.locked p.2, a.plain p.2 = true := plain_acts hnc
      refine .inr (runActs_rel (R := fun o o' => (∃ t, o = some t ∧ Carries p.1 t) →
        ∃ t', o' = some t' ∧ Carries p.1 t') (fun _ h => h) (fun h h' ho => h' (h ho)) ?_ hrun
        ⟨t, ht, hc⟩)
      rintro a ha o o' hs hr ⟨u, rfl, hu⟩
      rcases RowAct.moves hs hr with ⟨-, rfl⟩ | ⟨u', rfl, -⟩
      · exact absurd (hmild _ ha) nofun
      · exact ⟨u', rfl,
          RowAct.run_carries (disowns_lands hown ha (hmild a ha)) (hplain a ha) hs hr hu⟩

theorem Due.step (hi : Inv reg s) (hd : Due w s c)
    (hperm : Supervised.permits w ⟨s, some c⟩ ev = true) (hok : s.spares reg c.due ev = true)
    (h : s.step reg ev = some s') : Due w s' (c.after w s s' ev) where
  current i hc := by
    rcases Cycle.after_current hc with ⟨hc, hne, hne'⟩ | ⟨a, p, rfl, hp, rfl⟩
    · obtain ⟨x, alive, th, hm, hx, hw, hact, hhead⟩ := hd.current i hc
      obtain ⟨x', hx', hact', -⟩ := Sys.txn_stays hi.wf h hx hne hne'
      obtain ⟨h1, h2, h3⟩ := th.after_same s ev
      refine ⟨x', alive, _, Sys.step_keeps_thread h hm, hx', h3.trans hw, ?_, ?_⟩
      · rw [h1, h2, hact', hact]
      · rcases c.after_todo w s s' ev with htodo | ⟨j, he, hj, -⟩
        · rw [htodo, h1, hhead]
        · obtain rfl := Option.some.inj (hc.symm.trans hj)
          exact absurd he (not_or.2 ⟨hne, hne'⟩)
    · obtain ⟨⟨alive, rfl⟩, u, hu, hur, huw⟩ := handles_iff.1 hp
      obtain ⟨ha, hs⟩ := Sys.step_of_db h
      obtain ⟨th, hm, hr, hk, -⟩ := allows_owner ha rfl
      obtain rfl := hi.same_thread hu hm (hur.trans hr.symm)
      obtain ⟨h1, h2, h3⟩ := u.after_same s (.db (.begin (.timeoutTask p.1 p.2 alive)))
      simp only [Supervised.permits, hp, Option.all_some, Option.any_some, decide_eq_true_eq]
        at hperm
      refine ⟨_, alive, _, Sys.step_keeps_thread h hm, hs.begin_inv.1, h3.trans huw, ?_, ?_⟩
      · rw [h1, h2, hr, hk]
      · rcases c.after_todo w s s' (.db (.begin (.timeoutTask p.1 p.2 alive))) with
          htodo | ⟨j, he, -⟩
        · rw [htodo, h1, hr, hperm.2]
        · rcases he with he | he <;> cases he
  thread p hp := by
    obtain ⟨th, hm, hr, hk, hw, hcase⟩ := hd.thread p (Cycle.after_due ▸ hp)
    obtain ⟨h1, h2, h3⟩ := th.after_same s ev
    refine ⟨_, Sys.step_keeps_thread h hm, h1.trans hr, h2.trans hk, h3.trans hw, ?_⟩
    rcases hcase with ht | hmem
    · exact .inl (timedOut_stays ht)
    · rcases c.after_todo w s s' ev with htodo | ⟨i, he, hc, htodo⟩
      · exact .inr (htodo ▸ hmem)
      · -- the thread at the head of the list has timed out
        obtain ⟨x, alive, u, hu, hx, -, hact, hhead⟩ := hd.current i hc
        obtain ⟨l, hl⟩ := List.head?_eq_some_iff.1 hhead
        rw [hl] at hmem
        rcases List.mem_cons.1 hmem with heq | hmem
        · obtain rfl := hi.same_thread hm hu (hr.trans heq)
          have ho : x.act.owner = some (th.runner, th.task) := by rw [hact]; rfl
          left
          rcases he with rfl | rfl
          · rw [Thread.after_commit hx ho, hact]
            rfl
          · rw [Thread.after_abort hx ho, hact]
            rfl
        · right
          rw [htodo, hl]
          exact hmem
  row p hp := by
    have hp := Cycle.after_due ▸ hp
    rcases hd.row p hp with hwr | ⟨t, ht, hc⟩
    · exact .inl (Cycle.after_wrote hwr)
    · exact due_row hi hok h hp ht hc

end Cycle

/-! ## Runs of a supervised system -/

/-- What holds while the supervisor handles the overdue threads in time. -/
structure Watched (reg : Registry) (w : WorkerId) (s : Supervised) : Prop where
  inv : Inv reg s.sys
  handled : Handled w s.sys
  due : ∀ c, s.cycle = some c → Due w s.sys c

theorem Watched.step {C : Clock} {s s' : Supervised} {e : CycleEv} (hw : Watched reg w s)
    (hok : s.prompt reg w e = true) (h : s.step reg C w e = some s') : Watched reg w s' := by
  cases e with
  | sys ev =>
    simp only [Supervised.step, Option.ite_none_right_eq_some, Option.map_eq_some_iff] at h
    obtain ⟨hperm, t, ht, rfl⟩ := h
    obtain ⟨htime, hspare⟩ := Bool.and_eq_true_iff.1 hok
    refine ⟨hw.inv.step ht, hw.handled.step hw.inv htime ht, fun c' hc' => ?_⟩
    obtain ⟨c, hc, rfl⟩ := Option.map_eq_some_iff.1 hc'
    obtain ⟨sys, cycle⟩ := s
    obtain rfl : cycle = some c := hc
    exact (hw.due c rfl).step hw.inv hperm hspare ht
  | checkTimeouts now =>
    simp only [Supervised.step, Option.ite_none_right_eq_some, Option.some.injEq] at h
    obtain ⟨-, rfl⟩ := h
    refine ⟨hw.inv, hw.handled, fun c hc => ?_⟩
    obtain rfl := Option.some.inj hc
    exact due_start C now
  | endCycle =>
    simp only [Supervised.step, Option.ite_none_right_eq_some, Option.some.injEq] at h
    obtain ⟨-, rfl⟩ := h
    exact ⟨hw.inv, hw.handled, nofun⟩

/-- At the end of a cycle every due thread is answered for. -/
theorem Watched.answered {C : Clock} {s s' : Supervised} (hw : Watched reg w s)
    (h : s.step reg C w .endCycle = some s') {c : Cycle} (hc : s.cycle = some c)
    {p : RunnerId × TaskId} (hp : p ∈ c.due) : s.answered c p := by
  simp only [Supervised.step, Option.ite_none_right_eq_some, hc, Option.any_some,
    decide_eq_true_eq] at h
  obtain ⟨⟨htodo, -⟩, -⟩ := h
  have hd := hw.due c hc
  rcases hd.row p hp with hwr | ⟨t, ht, hcar⟩
  · exact .inl hwr
  refine .inr ⟨t, ht, ?_⟩
  rcases hcar with ⟨hr, hf⟩ | hcancel
  · left
    refine ⟨?_, hr⟩
    -- its thread has been handled, so the task is marked
    obtain ⟨th, hm, hrun, hk, hwk, hcase⟩ := hd.thread p hp
    have htime := hcase.resolve_right (by rw [htodo]; exact List.not_mem_nil)
    have hno := hw.handled.flagged th hm hwk htime
    rw [hrun, hk, ht] at hno
    by_contra hst
    refine hno ⟨t, rfl, hr, ?_⟩
    revert hf hst
    cases t.state <;> decide
  · exact .inr hcancel

/-- **Overdue threads are marked.** In every run in which `_timeout_task` finds the tasks of overdue
threads running and goes through, and nobody else disowns the tasks meanwhile, each cycle ends with
the tasks of the threads that were due in it `stuck`, or written by the thread or a canceller. -/
theorem overdue_marked {C : Clock} {s₀ : Sys} {s s₁ s₂ : Supervised} {es : List CycleEv}
    (h0 : Start s₀)
    (hp : Path (Supervised.step reg C w) (fun s e => s.prompt reg w e = true) ⟨s₀, none⟩ es s)
    (ht : Takes (Supervised.step reg C w) ⟨s₀, none⟩ es s₁ .endCycle s₂) :
    ∀ c, s₁.cycle = some c → ∀ p ∈ c.due, s₁.answered c p := by
  obtain ⟨⟨pre, hpre⟩, -, hs⟩ := hp.takes ht
  have hw : Watched reg w s₁ :=
    hpre.inv (fun _ _ _ hw hok h => hw.step hok h) ⟨h0.inv, h0.handled, nofun⟩
  exact fun c hc p hm => hw.answered hs hc hm

def tenTicks : Clock := ⟨fun _ => 0, fun _ => 10⟩

/-- Claimed and started, and `execute()` does not return. -/
def silentThread : List CycleEv := [
  .sys (.db (.begin (.claimTask (exportClaim 1) id fun _ => 7))), .sys (.db (.lock 0)),
  .sys (.db (.commit 0)), .sys (.db (.begin (.actionStart 7 1 101))), .sys (.db (.lock 1)),
  .sys (.db (.commit 1)), .sys (.db (.begin (.execute 7 1 102 [] (.returns none))))]

/-- The thread is overdue, and its task marked. -/
def markedThread : List CycleEv := silentThread ++ [
  .checkTimeouts 50, .sys (.db (.begin (.timeoutTask 7 1 true))), .sys (.db (.lock 3)),
  .sys (.db (.commit 3))]

theorem markedThread_answered : ∃ s₁ s₂ c, Takes (Supervised.step [] tenTicks 1)
      ⟨Sys.init oneTask, none⟩ (markedThread ++ [.endCycle]) s₁ .endCycle s₂ ∧
    s₁.cycle = some c ∧ (7, 1) ∈ c.due ∧ s₁.answered c (7, 1) ∧
    (s₁.sys.db.cur.row 1).map Task.state = some .stuck := by
  let s₁ := reached (Supervised.step [] tenTicks 1) anyStep ⟨Sys.init oneTask, none⟩ markedThread
  have hp : Path (Supervised.step [] tenTicks 1) (fun s e => s.prompt [] 1 e = true)
      ⟨Sys.init oneTask, none⟩ (markedThread ++ [.endCycle]) _ := path_reached (by decide +kernel)
  have hpre : Path (Supervised.step [] tenTicks 1) anyStep ⟨Sys.init oneTask, none⟩ markedThread
      s₁ := path_reached (by decide +kernel)
  have hs : Supervised.step [] tenTicks 1 s₁ .endCycle = some (reached _ anyStep _ _) :=
    step_reached (by decide +kernel)
  have ht : Takes _ _ _ _ _ _ := ⟨markedThread, [], rfl, hpre, hs⟩
  have hc : s₁.cycle = some { todo := [], due := [(7, 1)] } := by decide +kernel
  exact ⟨_, _, _, ht, hc, by decide,
    overdue_marked (Start.init (by decide)) hp ht _ hc _ (by decide), by decide +kernel⟩

/-- `_timeout_task` fails in a first cycle; in a second one nothing fails. -/
def swallowed : List CycleEv := silentThread ++ [
  .checkTimeouts 50, .sys (.db (.begin (.timeoutTask 7 1 true))), .sys (.db (.abort 3)), .endCycle,
  .checkTimeouts 60]

/-- The second cycle passes the thread over, and the task stays running. -/
theorem timeout_swallowed : ¬ ∀ reg C w s₀ es s₁ s₂, Start s₀ →
    Takes (Supervised.step reg C w) ⟨s₀, none⟩ es s₁ .endCycle s₂ →
    ∀ c, s₁.cycle = some c → c.ok = true → ∀ p ∈ c.due, s₁.answered c p := by
  intro h
  let s₁ := reached (Supervised.step [] tenTicks 1) anyStep ⟨Sys.init oneTask, none⟩ swallowed
  have hpre : Path (Supervised.step [] tenTicks 1) anyStep ⟨Sys.init oneTask, none⟩ swallowed
      s₁ := path_reached (by decide +kernel)
  have hs : Supervised.step [] tenTicks 1 s₁ .endCycle = some (reached _ anyStep _ _) :=
    step_reached (by decide +kernel)
  have hc : s₁.cycle = some { todo := [], due := [(7, 1)] } := by decide +kernel
  have ha : s₁.answered _ (7, 1) := h _ _ _ _ _ _ _ (Start.init (by decide))
    ⟨swallowed, [], rfl, hpre, hs⟩ _ hc rfl _ (by decide)
  exact absurd ha (by decide +kernel)

/-- The thread starts its task after it has timed out. -/
def delayedStart : List CycleEv := silentThread.take 3 ++ [
  .checkTimeouts 50, .sys (.db (.begin (.timeoutTask 7 1 true))), .sys (.db (.commit 1)), .endCycle,
  .sys (.db (.begin (.actionStart 7 1 101))), .sys (.db (.lock 2)), .sys (.db (.commit 2)),
  .checkTimeouts 60]

example : (checkedRun (Supervised.step [] tenTicks 1) anyStep ⟨Sys.init oneTask, none⟩
    delayedStart).any (fun s => s.cycle.any fun c => c.todo = [] ∧ (7, 1) ∈ c.due ∧
      ¬ s.answered c (7, 1)) = true := by
  decide +kernel

end GenericTaskQueue
