import GenericBackground.TaskQueue.IsCancelled

/-!
# What becomes of claims and results

The statements that have gone through on a row are a ledger of it. A claim puts a task in flight,
and a final write, a failure, the recovery, the hand-over to children, and a cancellation or
deletion of a task in flight land it again. So claims and settlements balance: no claim is lost, and
none is settled twice (`claims_settled`).

A task becomes `done` by one statement, whose result it then keeps (`done_once`).
-/

namespace GenericTaskQueue

open RowStore Lts

variable {reg : Registry} {s s' : Sys} {k : TaskId}

/-! ## The ledger of a row -/

/-- The statements on row `k` that have gone through in a run, each with the row that it found. -/
def ledger (reg : Registry) (k : TaskId) (s : Sys) (es : List Ev) : List (RowAct × Option Task) :=
  outputs reg (fun a o _ => [(a, o)]) (history reg k s es) (s.db.cur.row k)

/-- **Balance rule.** What every statement changes a quantity of the row by, the ledger does. -/
theorem ledger_balance {f : Option Task → ℕ} {s₀ : Sys} {es : List Ev}
    {ok : Sys → Ev → Prop} {p q : RowAct × Option Task → Bool}
    (hrun : ∀ a o o', a.selects o = true → a.run reg o = .ok o' →
      f o + (p (a, o)).toNat = f o' + (q (a, o)).toNat)
    (hi : Inv reg s₀) (hp : Path (Sys.step reg) ok s₀ es s) :
    f (s₀.db.cur.row k) + (ledger reg k s₀ es).countP p =
      f (s.db.cur.row k) + (ledger reg k s₀ es).countP q := by
  obtain ⟨b, hrows⟩ := row_history hi hp k
  exact outputs_inv (f := fun a o _ => [(a, o)]) (l := [])
    (I := fun l _ o => f (s₀.db.cur.row k) + l.countP p = f o + l.countP q)
    (fun l a acts o o' hl hs hr => by
      have := hrun a o o' hs hr
      rw [List.countP_append, List.countP_append, List.countP_singleton, List.countP_singleton]
      cases hpa : p (a, o) <;> cases hqa : q (a, o) <;>
        simp only [hpa, hqa, Bool.toNat_false, Bool.toNat_true, if_true, if_false,
          Bool.false_eq_true] at this ⊢ <;> omega)
    (fun _ _ _ _ hl _ => hl) hrows rfl

theorem outputs_countP_le (f : RowAct → Bool) (acts : List RowAct) (o : Option Task) :
    (outputs reg (fun a o _ => [(a, o)]) acts o).countP (fun e => f e.1) ≤ acts.countP f := by
  induction acts generalizing o with
  | nil => exact Nat.le_refl _
  | cons a acts ih =>
    rw [List.countP_cons]
    cases hs : a.selects o with
    | false => exact (outputs_unselected hs).symm ▸ (ih o).trans (Nat.le_add_right _ _)
    | true =>
      rcases hr : a.run reg o with e | o'
      · rw [outputs, if_pos hs, hr]
        exact Nat.zero_le _
      · rw [outputs_selected hs hr, List.countP_append, List.countP_singleton]
        exact (Nat.add_comm _ _).trans_le (Nat.add_le_add_right (ih o') _)

theorem ledger_countP_le {s₀ : Sys} {es : List Ev} (f : RowAct → Bool) :
    (ledger reg k s₀ es).countP (fun e => f e.1) ≤ (history reg k s₀ es).countP f :=
  outputs_countP_le f _ _

/-! ## Claims -/

def inFlight (o : Option Task) : Bool := o.any fun t => t.state ∈ inFlightStates

def RowAct.claims : RowAct → Bool
  | .assign _ _ => true
  | _ => false

/-- The statement settles the claim of the task that it finds. -/
def RowAct.endsClaim (a : RowAct) (o : Option Task) : Bool :=
  match a with
  | .done _ _ _ => true
  | .failure _ _ _ _ _ => true
  | .lostExecution _ _ _ _ => true
  | .waitChildren => true
  | .user (.actionCancel _) => inFlight o
  | .user .unlink => inFlight o
  | _ => false

theorem inFlight_of_mem {t : Task} (h : t.state ∈ inFlightStates) : inFlight (some t) = true :=
  decide_eq_true h

theorem inFlight_of_not_mem {t : Task} (h : t.state ∉ inFlightStates) :
    inFlight (some t) = false := decide_eq_false h

theorem inFlight_congr {t t' : Task} (h : t'.state = t.state) :
    inFlight (some t') = inFlight (some t) := by
  show decide (t'.state ∈ inFlightStates) = decide (t.state ∈ inFlightStates)
  rw [h]

theorem run_inFlight {a : RowAct} {o o' : Option Task} (hs : a.selects o = true)
    (h : a.run reg o = .ok o') :
    (inFlight o).toNat + a.claims.toNat = (inFlight o').toNat + (a.endsClaim o).toNat := by
  rcases o with _ | t
  · by_cases ha : a.creates = true
    · cases a with
      | user u => cases u with
        | create v =>
          obtain rfl := Except.ok.inj h
          rfl
        | _ => cases ha
      | _ => cases ha
    · exact (RowAct.run_none (Bool.eq_false_iff.2 ha) h).elim
  have lands : ∀ {t' : Task}, t.state ∈ inFlightStates → t'.state ∉ inFlightStates →
      (inFlight (some t)).toNat + 0 = (inFlight (some t')).toNat + 1 := fun hm hn => by
    rw [inFlight_of_mem hm, inFlight_of_not_mem hn]
    rfl
  have stays : ∀ {t' : Task}, t.state ∉ inFlightStates → t'.state ∉ inFlightStates →
      (inFlight (some t)).toNat + 0 = (inFlight (some t')).toNat + 0 := fun hm hn => by
    rw [inFlight_of_not_mem hm, inFlight_of_not_mem hn]
  have kept : ∀ {t' : Task}, t'.state = t.state →
      (inFlight (some t)).toNat + 0 = (inFlight (some t')).toNat + 0 := fun hst => by
    rw [inFlight_congr hst]
  change a.onTask reg t = .ok o' at h
  cases a with
  | user u =>
    cases u with
    | create v => cases h
    | actionCancel now =>
      obtain ⟨-, rfl⟩ := checked_row h
      show _ + 0 = 0 + (inFlight (some t)).toNat
      omega
    | actionRetry eta =>
      obtain ⟨t', ht', rfl⟩ := map_some_ok h
      obtain ⟨hf, rfl⟩ := actionRetry_ok ht'
      exact stays (by rw [hf]; decide) (by simp [inFlightStates])
    | unlink =>
      obtain rfl := Except.ok.inj h
      show _ + 0 = 0 + (inFlight (some t)).toNat
      omega
    | _ =>
      obtain rfl := Except.ok.inj h
      exact kept rfl
  | assign worker uuid =>
    obtain ⟨t', ht', rfl⟩ := map_some_ok h
    obtain ⟨hpend, rfl⟩ := claimRow_eq ht'
    rw [inFlight_of_not_mem (t := t) (by rw [hpend]; decide)]
    rfl
  | start now =>
    obtain ⟨hst, rfl⟩ := checked_row h
    have := of_allowed_running hst
    show _ = (inFlight (some _)).toNat + 0
    rw [inFlight_of_mem (t := t) (by rw [this]; decide)]
    rfl
  | stuck =>
    obtain ⟨hst, rfl⟩ := checked_row h
    have := of_allowed_stuck hst
    show _ = (inFlight (some _)).toNat + 0
    rw [inFlight_of_mem (t := t) (by rw [this]; decide)]
    rfl
  | waitChildren =>
    obtain ⟨hst, rfl⟩ := checked_row h
    refine lands ?_ (by simp [inFlightStates])
    cases hc : t.state <;> rw [hc] at hst <;> revert hst <;> decide
  | progress value =>
    obtain rfl := Except.ok.inj h
    exact kept rfl
  | done runner now result =>
    obtain ⟨-, rfl⟩ := checked_row h
    exact lands (final_in_flight (finalizable_iff.1 hs).1) (by simp [inFlightStates])
  | failure runner now exc traceback read =>
    obtain ⟨t', ht', rfl⟩ := map_some_ok h
    exact lands (final_in_flight (finalizable_iff.1 hs).1) (handleFailure_landed ht').2
  | lostExecution runner worker now error =>
    obtain ⟨t', ht', rfl⟩ := map_some_ok h
    exact lands (finalizable_iff.1 hs).1 (handleLostExecution_landed ht').2
  | autoRetry now =>
    obtain rfl := Except.ok.inj h
    exact stays (by rw [autoRetryable_failed hs]; decide)
      (by simp [actionAutoRetry, inFlightStates])
  | unown =>
    obtain rfl := Except.ok.inj h
    exact kept rfl
  | lockWaiting =>
    obtain rfl := Except.ok.inj h
    exact kept rfl
  | move now m =>
    have hw : t.state = .waiting := of_decide_eq_true hs
    cases m <;> obtain ⟨-, rfl⟩ := checked_row h <;>
      exact stays (by rw [hw]; decide) (by simp [inFlightStates])

def RowAct.deletes : RowAct → Bool
  | .user .unlink => true
  | _ => false

theorem run_present {a : RowAct} {o o' : Option Task} (hs : a.selects o = true)
    (h : a.run reg o = .ok o') :
    o.isSome.toNat + a.creates.toNat = o'.isSome.toNat + a.deletes.toNat := by
  cases hc : a.creates with
  | true =>
    cases a with
    | user u => cases u with
      | create v =>
        rcases o with _ | t
        · obtain rfl := Except.ok.inj h
          rfl
        · cases h
      | _ => cases hc
    | _ => cases hc
  | false =>
    rcases o with _ | t
    · exact (RowAct.run_none hc h).elim
    change a.onTask reg t = .ok o' at h
    cases a with
    | user u => cases u with
      | create v => cases h
      | actionCancel now => obtain ⟨-, rfl⟩ := checked_row h; rfl
      | actionRetry eta => obtain ⟨t', -, rfl⟩ := map_some_ok h; rfl
      | _ => obtain rfl := Except.ok.inj h; rfl
    | progress value => obtain rfl := Except.ok.inj h; rfl
    | autoRetry now => obtain rfl := Except.ok.inj h; rfl
    | unown => obtain rfl := Except.ok.inj h; rfl
    | lockWaiting => obtain rfl := Except.ok.inj h; rfl
    | move now m => cases m <;> obtain ⟨-, rfl⟩ := checked_row h <;> rfl
    | _ => obtain ⟨t', -, rfl⟩ := map_some_ok h; rfl

/-- **Every claim is settled once.** In every run the claims of a task that have gone through are
the settlements that have gone through, and one more if the task is in flight: its thread's final
write or failure handler, its hand-over to children, crash recovery, or a cancellation or deletion
of the task in flight. And the row has been inserted at most once, and is there until it is deleted.
-/
theorem claims_settled {s₀ : Sys} {es : List Ev} (h0 : Start s₀)
    (hp : Path (Sys.step reg) DrawsOnce s₀ es s) :
    (ledger reg k s₀ es).countP (fun e => e.1.claims) + (inFlight (s₀.db.cur.row k)).toNat =
      (ledger reg k s₀ es).countP (fun e => e.1.endsClaim e.2) +
        (inFlight (s.db.cur.row k)).toNat ∧
    (ledger reg k s₀ es).countP (fun e => e.1.creates) + (s₀.db.cur.row k).isSome.toNat =
      (ledger reg k s₀ es).countP (fun e => e.1.deletes) + (s.db.cur.row k).isSome.toNat ∧
    (ledger reg k s₀ es).countP (fun e => e.1.creates) ≤ 1 := by
  have hclaims := ledger_balance (k := k) (f := fun o => (inFlight o).toNat)
    (p := fun e => e.1.claims) (q := fun e => e.1.endsClaim e.2)
    (fun a o o' hs hr => run_inFlight hs hr) h0.inv hp
  have hrows := ledger_balance (k := k) (f := fun o => o.isSome.toNat)
    (p := fun e => e.1.creates) (q := fun e => e.1.deletes)
    (fun a o o' hs hr => run_present hs hr) h0.inv hp
  refine ⟨by omega, by omega, ?_⟩
  exact (ledger_countP_le RowAct.creates).trans (created_once h0 hp k).once

/-- Failed, retried automatically, claimed again, and executed to the end. -/
def doneAfterRetry : List Ev := failedOnce ++ [
  .db (.commit 3),
  .db (.begin (.claimTask { exportClaim 1 with now := 200 } id fun _ => 8)), .db (.lock 4),
  .db (.commit 4), .db (.begin (.actionStart 8 1 201)), .db (.lock 5), .db (.commit 5),
  .db (.begin (.execute 8 1 202 [] (.returns (some (.int 5))))), .db (.lock 6), .db (.commit 6)]

/-- Two claims, and two settlements. -/
theorem doneAfterRetry_settled : ∃ s, Path (Sys.step []) DrawsOnce (Sys.init oneTask)
      doneAfterRetry s ∧ (ledger [] 1 (Sys.init oneTask) doneAfterRetry).countP
        (fun e => e.1.endsClaim e.2) + (inFlight (s.db.cur.row 1)).toNat = 2 := by
  have hp : Path (Sys.step []) DrawsOnce (Sys.init oneTask) doneAfterRetry _ :=
    path_reached (by decide +kernel)
  refine ⟨_, hp, ?_⟩
  rw [← (claims_settled (k := 1) (Start.init (by decide)) hp).1]
  decide +kernel

/-! ## Results -/

/-- The date and the result with which the statement makes a task done. -/
def RowAct.completes : RowAct → List (ℕ × Option Json)
  | .done _ now result => [(now, result)]
  | .move now (.done result) => [(now, result)]
  | _ => []

/-- The completions of task `k` that have gone through in a run. -/
def completions (reg : Registry) (k : TaskId) (s : Sys) (es : List Ev) : List (ℕ × Option Json) :=
  outputs reg (fun a _ _ => a.completes) (history reg k s es) (s.db.cur.row k)

/-- The completions of a task: none as long as it is not done, and then the one that it shows. -/
inductive CompletedBy (t : Task) : List (ℕ × Option Json) → Prop
  | unfinished (h : t.state ≠ .done) : CompletedBy t []
  | finished {now : ℕ} {result : Option Json} (hs : t.state = .done) (hr : t.taskResult = result)
      (hd : t.dateCompleted = some now) : CompletedBy t [(now, result)]

theorem completes_run {a : RowAct} {t t' : Task} (ht : t.state ≠ .done)
    (h : a.run reg (some t) = .ok (some t')) : CompletedBy t' a.completes := by
  have moved : ∀ st : TaskState, t'.state = st → st ≠ .done → CompletedBy t' [] :=
    fun _ hs hne => .unfinished (hs ▸ hne)
  change a.onTask reg t = .ok (some t') at h
  cases a with
  | user u =>
    cases UserAct.leaves h with
    | edited he => exact moved _ he.state ht
    | cancelled _ hs => exact moved _ hs (by decide)
    | retried _ hs => exact moved _ hs (by decide)
  | assign worker uuid =>
    obtain ⟨-, rfl⟩ := claimRow_eq (ok_of_map_some h)
    exact moved .assigned rfl (by decide)
  | start now => obtain ⟨-, rfl⟩ := checked_some h; exact moved .running rfl (by decide)
  | stuck => obtain ⟨-, rfl⟩ := checked_some h; exact moved .stuck rfl (by decide)
  | waitChildren =>
    obtain ⟨-, rfl⟩ := checked_some h
    exact moved .waiting rfl (by decide)
  | progress value => obtain rfl := Option.some.inj (Except.ok.inj h); exact moved _ rfl ht
  | done runner now result => obtain ⟨-, rfl⟩ := checked_some h; exact .finished rfl rfl rfl
  | failure runner now exc traceback read =>
    rcases handleFailure_cases (ok_of_map_some h) with ⟨-, _, rfl⟩ | ⟨-, h⟩
    · exact moved .pending rfl (by decide)
    · obtain ⟨-, rfl⟩ := checked_ok h
      exact moved .failed rfl (by decide)
  | lostExecution runner worker now error =>
    rcases handleLostExecution_cases (ok_of_map_some h) with ⟨-, h⟩ | ⟨-, -, rfl⟩ | ⟨-, -, h⟩
    · obtain ⟨-, rfl⟩ := checked_ok h
      exact moved .pending rfl (by decide)
    · exact moved .pending rfl (by decide)
    · obtain ⟨-, rfl⟩ := checked_ok h
      exact moved .failed rfl (by decide)
  | autoRetry now =>
    obtain rfl := Option.some.inj (Except.ok.inj h)
    exact moved .pending rfl (by decide)
  | unown => obtain rfl := Option.some.inj (Except.ok.inj h); exact moved _ rfl ht
  | lockWaiting => obtain rfl := Option.some.inj (Except.ok.inj h); exact moved _ rfl ht
  | move now m =>
    cases m with
    | done result => obtain ⟨-, rfl⟩ := checked_some h; exact .finished rfl rfl rfl
    | fail error => obtain ⟨-, rfl⟩ := checked_some h; exact moved .failed rfl (by decide)
    | cancel => obtain ⟨-, rfl⟩ := checked_some h; exact moved .cancelled rfl (by decide)

/-- **Done once.** In every run a task that was not done at the start is made done by one statement
at most: while it is not done none has gone through, and from then on its result and its date are
those of the one that has. -/
theorem done_once {s₀ : Sys} {es : List Ev} {t : Task} (h0 : Start s₀)
    (hnew : ∀ t, s₀.db.cur.row k = some t → t.state ≠ .done)
    (hp : Path (Sys.step reg) DrawsOnce s₀ es s) (ht : s.db.cur.row k = some t) :
    CompletedBy t (completions reg k s₀ es) := by
  obtain ⟨b, hrun⟩ := row_history h0.inv hp k
  refine outputs_task (P := fun l t => CompletedBy t l) ?_ ?_ (created_once h0 hp k) hrun ?_ t ht
  · exact fun _ v => .unfinished TaskState.noConfusion
  · intro l a t t' hl hs hr
    cases hl with
    | unfinished h => exact completes_run h hr
    | finished hst hres hdate =>
      -- a task that is done keeps its result and its date
      obtain ⟨ha, hsame⟩ := closed_run (by rw [hst]; rfl) hs hr
      have hsame := hsame t' rfl
      have hnone : a.completes = [] := by cases a <;> first | rfl | cases ha
      rw [hnone, List.append_nil]
      exact .finished (hsame.state.trans hst) (hsame.taskResult.trans hres)
        (hsame.dateCompleted.trans hdate)
  · exact fun t ht => .unfinished (hnew t ht)

theorem doneAfterRetry_once : ∃ s t, Path (Sys.step []) DrawsOnce (Sys.init oneTask)
      doneAfterRetry s ∧ s.db.cur.row 1 = some t ∧ t.state = .done ∧
    CompletedBy t [(202, some (.int 5))] := by
  have hp : Path (Sys.step []) DrawsOnce (Sys.init oneTask) doneAfterRetry _ :=
    path_reached (by decide +kernel)
  obtain ⟨t, ht, hst⟩ : ∃ t, (reached (Sys.step []) DrawsOnce (Sys.init oneTask)
      doneAfterRetry).db.cur.row 1 = some t ∧ t.state = .done := ⟨_, rfl, rfl⟩
  refine ⟨_, t, hp, ht, hst, ?_⟩
  have hnew : ∀ t, (Sys.init oneTask).db.cur.row 1 = some t → t.state ≠ .done := fun t ht => by
    obtain rfl := Option.some.inj ht
    decide
  have := done_once (Start.init (by decide)) hnew hp ht
  rwa [show completions [] 1 (Sys.init oneTask) doneAfterRetry = [(202, some (.int 5))] by
    decide +kernel] at this

end GenericTaskQueue
