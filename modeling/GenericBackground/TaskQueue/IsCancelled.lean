import GenericBackground.TaskQueue.RowHistory

/-!
# `is_cancelled`

Task code asks `is_cancelled` while it runs, on a cursor of its own that sees what other
transactions have committed. Once the answer has been true, it is never false again, and the task is
out of everybody's hands: of all statements on its row, only edits by users, `store_phase_data`,
progress ticks and the deletion still go through (`is_cancelled_final`). So a thread that goes on
after a true answer works for nothing, and one whose final write goes through has had no true answer
before it.
-/

namespace GenericTaskQueue

open RowStore Lts

variable {reg : Registry} {s s' : Sys} {k : TaskId}

/-- `is_cancelled`: `none` once the row is gone. -/
def Sys.isCancelled (s : Sys) (k : TaskId) : Option Bool :=
  (s.db.cur.row k).map fun t => t.state = .cancelled

/-- The statements on row `k` that have gone through in a run. -/
def wentThrough (reg : Registry) (k : TaskId) (s : Sys) (es : List Ev) : List RowAct :=
  outputs reg (fun a _ _ => [a]) (history reg k s es) (s.db.cur.row k)

def RowAct.leavesOutcome : RowAct → Bool
  | .user (.lookupUniqueKey _) => true
  | .user (.write _) => true
  | .user (.storePhaseData _) => true
  | .user (.enterPhase _ _) => true
  | .user .unlink => true
  | .progress _ => true
  | _ => false

/-- The outcome of the task, and what says whose it is. -/
structure SameOutcome (t t' : Task) : Prop where
  state : t'.state = t.state
  taskResult : t'.taskResult = t.taskResult
  taskError : t'.taskError = t.taskError
  taskErrorData : t'.taskErrorData = t.taskErrorData
  workerId : t'.workerId = t.workerId
  runnerId : t'.runnerId = t.runnerId
  retryCount : t'.retryCount = t.retryCount
  dateCompleted : t'.dateCompleted = t.dateCompleted

theorem SameOutcome.refl (t : Task) : SameOutcome t t := ⟨rfl, rfl, rfl, rfl, rfl, rfl, rfl, rfl⟩

theorem SameOutcome.trans {t₁ t₂ t₃ : Task} (h : SameOutcome t₁ t₂) (h' : SameOutcome t₂ t₃) :
    SameOutcome t₁ t₃ :=
  ⟨h'.state.trans h.state, h'.taskResult.trans h.taskResult, h'.taskError.trans h.taskError,
    h'.taskErrorData.trans h.taskErrorData, h'.workerId.trans h.workerId,
    h'.runnerId.trans h.runnerId, h'.retryCount.trans h.retryCount,
    h'.dateCompleted.trans h.dateCompleted⟩

theorem closed_ne {t : Task} (hc : allowedTransitions t.state = []) {st : TaskState}
    (hst : allowedTransitions st ≠ []) : t.state ≠ st := fun h => hst (h ▸ hc)

theorem closed_stays {t u : Task} {st : TaskState} {o : Option Task}
    (hc : allowedTransitions t.state = [])
    (h : (do checkTransition st t; return u : Except TaskError Task).map some = .ok o) : False := by
  obtain ⟨hs, -⟩ := checked_row h
  rw [hc] at hs
  cases hs

theorem closed_run {a : RowAct} {t : Task} {o : Option Task} (hc : allowedTransitions t.state = [])
    (hs : a.selects (some t) = true) (h : a.run reg (some t) = .ok o) :
    a.leavesOutcome = true ∧ ∀ t', o = some t' → SameOutcome t t' := by
  have edited : ∀ {u : Task}, (.ok (some u) : Except TaskError (Option Task)) = .ok o →
      SameOutcome t u → ∀ t', o = some t' → SameOutcome t t' := fun he hu t' ht' => by
    obtain rfl := Option.some.inj ((Except.ok.inj he).trans ht')
    exact hu
  have final : ∀ {states : List TaskState} {r : Option RunnerId} {w : Option WorkerId},
      (∀ st ∈ states, allowedTransitions st ≠ []) → finalizable states r w t = true → False :=
    fun hne hf => closed_ne hc (hne _ (finalizable_iff.1 hf).1) rfl
  have waits : ¬ decide (t.state = .waiting) = true := fun hw =>
    closed_ne hc (by decide) (of_decide_eq_true hw)
  change a.onTask reg t = .ok o at h
  cases a with
  | user u =>
    cases u with
    | create v => cases h
    | lookupUniqueKey key => exact ⟨rfl, edited h (.refl t)⟩
    | write v => exact ⟨rfl, edited h ⟨rfl, rfl, rfl, rfl, rfl, rfl, rfl, rfl⟩⟩
    | storePhaseData vals => exact ⟨rfl, edited h ⟨rfl, rfl, rfl, rfl, rfl, rfl, rfl, rfl⟩⟩
    | enterPhase phase childIds => exact ⟨rfl, edited h ⟨rfl, rfl, rfl, rfl, rfl, rfl, rfl, rfl⟩⟩
    | actionCancel now => exact (closed_stays hc h).elim
    | actionRetry eta =>
      obtain ⟨t', ht', -⟩ := map_some_ok h
      exact (closed_ne hc (by decide) (actionRetry_ok ht').1).elim
    | unlink =>
      obtain rfl := Except.ok.inj h
      exact ⟨rfl, fun t' ht' => nomatch ht'⟩
  | assign worker uuid =>
    obtain ⟨t', ht', -⟩ := map_some_ok h
    exact (closed_ne hc (by decide) (claimRow_eq ht').1).elim
  | progress value => exact ⟨rfl, edited h ⟨rfl, rfl, rfl, rfl, rfl, rfl, rfl, rfl⟩⟩
  | stuck => exact (closed_ne hc (by decide) (of_decide_eq_true hs)).elim
  | done => exact (final (by decide) hs).elim
  | failure => exact (final (by decide) hs).elim
  | lostExecution => exact (final (by decide) hs).elim
  | autoRetry now => exact (closed_ne hc (by decide) (autoRetryable_failed hs)).elim
  | unown => exact absurd hs waits
  | lockWaiting => exact absurd hs waits
  | move => exact absurd hs waits
  | start now => exact (closed_stays hc h).elim
  | waitChildren => exact (closed_stays hc h).elim

/-- **A true answer is final.** Once `is_cancelled` has been true of a task, in every continuation
of the run it is never false again, the outcome of the task stays as the cancellation left it, and
of all statements only edits go through on its row: no final write, claim, start, retry, recovery
or decision about a waiting parent. -/
theorem is_cancelled_final {s₀ : Sys} {es es' : List Ev} (h0 : Start s₀)
    (hp : Path (Sys.step reg) DrawsOnce s₀ es s) (hc : s.isCancelled k = some true)
    (hp' : Path (Sys.step reg) DrawsOnce s es' s') :
    s'.isCancelled k ≠ some false ∧ (∀ a ∈ wentThrough reg k s es', a.leavesOutcome = true) ∧
      ∀ t t', s.db.cur.row k = some t → s'.db.cur.row k = some t' → SameOutcome t t' := by
  obtain ⟨t, ht, hst⟩ := Option.map_eq_some_iff.1 hc
  have hst : t.state = .cancelled := of_decide_eq_true hst
  obtain ⟨b, hrun⟩ := row_history (h0.inv.path hp) hp' k
  have hcr := created_once_from h0 hp hp' k
  have hno : ∀ a ∈ history reg k s es', a.creates = false := fun a hm =>
    Bool.eq_false_iff.2 fun ha => by
      have := hcr.absent ⟨a, hm, ha⟩
      rw [ht] at this
      cases this
  have key := outputs_inv (f := fun a _ _ => [a]) (l := [])
    (I := fun l acts o => (∀ a ∈ l, a.leavesOutcome = true) ∧ (∀ a ∈ acts, a.creates = false) ∧
      ∀ t', o = some t' → SameOutcome t t') ?_ ?_ hrun
    ⟨fun _ hm => absurd hm List.not_mem_nil, hno, fun t' ht' => by
      obtain rfl := Option.some.inj (ht.symm.trans ht')
      exact .refl t⟩
  · obtain ⟨hedits, -, hsame⟩ := key
    refine ⟨fun hf => ?_, hedits, fun u t' hu ht' => ?_⟩
    · obtain ⟨t', ht', hne⟩ := Option.map_eq_some_iff.1 hf
      exact of_decide_eq_false hne ((hsame t' ht').state.trans hst)
    · obtain rfl := Option.some.inj (ht.symm.trans hu)
      exact hsame t' ht'
  · rintro l a acts o o' ⟨hl, hcs, hsame⟩ hs hr
    rcases o with _ | u
    · exact (RowAct.run_none (hcs a List.mem_cons_self) hr).elim
    · have hu := hsame u rfl
      obtain ⟨ha, ho'⟩ := closed_run (t := u) (by rw [hu.state, hst]; rfl) hs hr
      refine ⟨fun b hb => ?_, fun b hb => hcs b (List.mem_cons_of_mem _ hb),
        fun t' ht' => hu.trans (ho' t' ht')⟩
      rcases List.mem_append.1 hb with hb | hb
      · exact hl b hb
      · obtain rfl := List.mem_singleton.1 hb
        exact ha
  · rintro l a acts o ⟨hl, hcs, hsame⟩ -
    exact ⟨hl, fun b hb => hcs b (List.mem_cons_of_mem _ hb), hsame⟩

/-- A task is executed, and cancelled by its user in the meantime. -/
def cancelledMidway : List Ev := [
  .db (.begin (.claimTask (exportClaim 1) id fun _ => 7)), .db (.lock 0), .db (.commit 0),
  .db (.begin (.actionStart 7 1 101)), .db (.lock 1), .db (.commit 1),
  .db (.begin (.execute 7 1 102 [] (.returns none))),
  .db (.begin (.user [(1, .actionCancel 103)])), .db (.lock 3), .db (.commit 3)]

/-- The final write finds a row that has changed, and so does the failure handler. -/
def executedInVain : List Ev := [
  .db (.abort 2), .db (.begin (.failureHandler 7 1 104 [] .transientError "Traceback")),
  .db (.commit 4)]

theorem executedInVain_final : ∃ s s', Path (Sys.step []) DrawsOnce (Sys.init oneTask)
      cancelledMidway s ∧ s.isCancelled 1 = some true ∧
    Path (Sys.step []) DrawsOnce s executedInVain s' ∧ s'.isCancelled 1 ≠ some false ∧
    ∀ a ∈ wentThrough [] 1 s executedInVain, a.leavesOutcome = true := by
  have hp : Path (Sys.step []) DrawsOnce (Sys.init oneTask) cancelledMidway _ :=
    path_reached (by decide +kernel)
  obtain ⟨s, hs⟩ : ∃ s, s = reached (Sys.step []) DrawsOnce (Sys.init oneTask)
      cancelledMidway := ⟨_, rfl⟩
  have hc : s.isCancelled 1 = some true := by rw [hs]; decide +kernel
  have hp' : Path (Sys.step []) DrawsOnce s executedInVain _ :=
    path_reached (by rw [hs]; decide +kernel)
  rw [← hs] at hp
  obtain ⟨h1, h2, -⟩ := is_cancelled_final (Start.init (by decide)) hp hc hp'
  exact ⟨s, _, hp, hc, hp', h1, h2⟩

end GenericTaskQueue
