import GenericBackground.TaskQueue.System
import Mathlib.Data.List.Chain
import Mathlib.Logic.Relation

/-!
# The state machine of a task

A step of the system leaves a row that is there as it is, or makes of it what the statements of the
transaction that commits make of it, one after the other (`Sys.row_run`). None of these statements
creates the row: its id was drawn from the sequence before (`Drawn`).

So a relation that every statement respects is respected by every committed change (`runActs_task`).
Here it is `Conforming`: the statement goes by `ALLOWED_TRANSITIONS`, or it is an automatic retry of
a running task. Two conforming statements need not come to a conforming change, so the net change is
followed through the statements of each transaction: `RowAct.transitions` are the changes that a
statement can make, `Tx.transitions` those that a transaction can commit, what its task code does to
the task included (`Tx.acts_transitions`).
-/

namespace GenericTaskQueue

open RowStore Lts

variable {reg : Registry} {s s' : Sys} {ev : Ev} {k : TaskId}

/-! ## Rows that are there -/

def RowAct.creates : RowAct → Bool
  | .user a => a.creates
  | _ => false

/-- An open transaction creates rows that its snapshot does not have. -/
def Drawn (s : Sys) : Prop :=
  ∀ i x, s.db.txns i = some x → ∀ k ∈ x.act.created, x.snap.row k = none

theorem Start.drawn (h : Start s) : Drawn s := fun _ _ hx => absurd hx h.closed

theorem allows_created {a : Tx} (h : s.allows (.begin a) = true) {k : TaskId}
    (hk : k ∈ a.created) : k ∉ s.db.cur.keys := by
  simp only [Sys.allows, Bool.and_eq_true, List.all_eq_true, decide_eq_true_eq] at h
  exact h.2 k hk

theorem Drawn.step (hi : Inv reg s) (hd : Drawn s) (h : s.step reg ev = some s') : Drawn s' := by
  intro i x hx k hk
  rcases Sys.step_txn h hx with ⟨y, hy, hact, hsnap⟩ | ⟨-, hsnap, -, ha, -⟩
  · rw [hsnap]
    exact hd i y hy k (hact ▸ hk)
  · -- a row that is there has its key among those used
    rw [hsnap]
    rcases hrow : s.db.cur.row k with _ | t
    · rfl
    · exact absurd (hi.wf.cur.present k t hrow) (allows_created ha hk)

theorem Drawn.path {ok : Sys → Ev → Prop} {es : List Ev} (h0 : Start s)
    (hp : Path (Sys.step reg) ok s es s') : Drawn s' :=
  hp.inv_of (fun _ _ _ hi _ h => hi.step h) (fun _ _ _ hi hd _ h => hd.step hi h) h0.inv h0.drawn

theorem UserAct.creates_at (u : UserAct) (k : TaskId) : (u.at k).creates = u.creates := by
  cases u <;> rfl

theorem acts_no_create {a : Tx} {σ : Snapshot TaskId Task} {L : List TaskId}
    (hk : k ∉ a.created) : ∀ act ∈ a.acts reg σ L k, act.creates = false := by
  intro act hm
  cases act with
  | user u =>
    obtain ⟨v, hv, rfl⟩ := user_stmts (mem_acts.1 hm)
    show (v.at k).creates = false
    rw [UserAct.creates_at, Bool.eq_false_iff]
    exact fun hc => hk (List.mem_map.2 ⟨(k, v), List.mem_filter.2 ⟨hv, hc⟩, rfl⟩)
  | _ => rfl

theorem Drawn.no_create (hd : Drawn s) {i : ℕ} {x : Txn Tx TaskId Task} {t : Task}
    (hx : s.db.txns i = some x) (ht : x.snap.row k = some t) :
    ∀ a ∈ x.act.acts reg x.snap x.locked k, a.creates = false := by
  refine acts_no_create fun hk => ?_
  rw [hd i x hx k hk] at ht
  cases ht

/-- **Row rule.** A step leaves a row as it is, or runs on it the statements of the transaction that
commits. -/
theorem Sys.row_run (hi : Inv reg s) (h : s.step reg ev = some s') (k : TaskId) :
    s'.db.cur.row k = s.db.cur.row k ∨ ∃ i x b, ev = .db (.commit i) ∧ s.db.txns i = some x ∧
      x.snap.row k = s.db.cur.row k ∧
      runActs reg (x.act.acts reg x.snap x.locked k) (false, s.db.cur.row k) =
        .ok (b, s'.db.cur.row k) := by
  rcases Sys.step_db h with ⟨e, rfl, -, hs⟩ | ⟨-, hdb⟩
  · rcases hs.row_change hi.wf k with hsame | ⟨i, x, o, rfl, hx, hk, hrow, -, -⟩
    · exact .inl hsame
    · obtain ⟨b, hrun⟩ := commit_row hi.wf hs hx hk
      exact .inr ⟨i, x, b, rfl, hx, hrow, hrun⟩
  · rw [hdb]
    exact .inl rfl

theorem RowAct.run_none {a : RowAct} {o : Option Task} (ha : a.creates = false)
    (h : a.run reg none = .ok o) : False := by
  cases a with
  | user u =>
    cases u with
    | create v => cases ha
    | _ => cases h
  | _ => cases h

theorem runActs_absent {acts : List RowAct} {p q : Bool × Option Task}
    (hc : ∀ a ∈ acts, a.creates = false) (hp : p.2 = none) (h : runActs reg acts p = .ok q) :
    q.2 = none :=
  runActs_rel (R := fun o o' => o = none → o' = none) (fun _ h => h) (fun h h' ho => h' (h ho))
    (fun a hm o o' _ hr ho => by
      subst ho
      exact (RowAct.run_none (hc a hm) hr).elim) h hp

/-- **Task rule.** A preorder that every statement respects relates a task that is there before and
after a list of statements that do not create it. -/
theorem runActs_task {R : Task → Task → Prop} {acts : List RowAct} {b : Bool} {t t' : Task}
    {q : Bool × Option Task} (hrefl : ∀ t, R t t)
    (htrans : ∀ {t₁ t₂ t₃}, R t₁ t₂ → R t₂ t₃ → R t₁ t₃)
    (hc : ∀ a ∈ acts, a.creates = false)
    (ha : ∀ a ∈ acts, ∀ t t', a.selects (some t) = true → a.run reg (some t) = .ok (some t') →
      R t t')
    (h : runActs reg acts (b, some t) = .ok q) (ht' : q.2 = some t') : R t t' := by
  refine (runActs_rel (R := fun o o' => (∀ t t', o = some t → o' = some t' → R t t') ∧
    (o = none → o' = none)) ?_ ?_ ?_ h).1 t t' rfl ht'
  · intro o
    refine ⟨fun t t' h1 h2 => ?_, fun h => h⟩
    obtain rfl := Option.some.inj (h1.symm.trans h2)
    exact hrefl t
  · rintro o₁ o₂ o₃ ⟨h1, n1⟩ ⟨h2, n2⟩
    refine ⟨fun t₁ t₃ ht₁ ht₃ => ?_, fun h => n2 (n1 h)⟩
    rcases o₂ with _ | t₂
    · rw [n2 rfl] at ht₃
      cases ht₃
    · exact htrans (h1 t₁ t₂ ht₁ rfl) (h2 t₂ t₃ rfl ht₃)
  · intro a hm o o' hs hr
    refine ⟨?_, ?_⟩
    · rintro t t' rfl rfl
      exact ha a hm t t' hs hr
    · rintro rfl
      exact (RowAct.run_none (hc a hm) hr).elim

theorem Sys.step_task {R : Task → Task → Prop} {t t' : Task} (hi : Inv reg s) (hd : Drawn s)
    (h : s.step reg ev = some s') (hrefl : ∀ t, R t t)
    (htrans : ∀ {t₁ t₂ t₃}, R t₁ t₂ → R t₂ t₃ → R t₁ t₃)
    (ha : ∀ i x, ev = .db (.commit i) → s.db.txns i = some x →
      ∀ a ∈ x.act.acts reg x.snap x.locked k, ∀ t t', a.selects (some t) = true →
        a.run reg (some t) = .ok (some t') → R t t')
    (ht : s.db.cur.row k = some t) (ht' : s'.db.cur.row k = some t') : R t t' := by
  rcases Sys.row_run hi h k with hsame | ⟨i, x, b, hev, hx, hrow, hrun⟩
  · rw [hsame, ht] at ht'
    obtain rfl := Option.some.inj ht'
    exact hrefl t
  · rw [ht] at hrow hrun
    exact runActs_task hrefl htrans (hd.no_create hx hrow) (ha i x hev hx) hrun ht'

/-! ## Conformance -/

/-- One write of a task goes by `ALLOWED_TRANSITIONS`, or it is `_action_auto_retry` of a running
task. -/
inductive Conforming (t : Task) : Task → Prop
  | kept {t' : Task} (h : t'.state = t.state) : Conforming t t'
  | allowed {t' : Task} (h : t'.state ∈ allowedTransitions t.state) : Conforming t t'
  | autoRetried (eta : Option ℕ) (h : t.state = .running) : Conforming t (actionAutoRetry eta t)

theorem actionAutoRetry_conforms {t : Task} {eta : Option ℕ}
    (h : t.state = .failed ∨ t.state = .running ∨ t.state = .stuck) :
    Conforming t (actionAutoRetry eta t) := by
  have allowed : TaskState.pending ∈ allowedTransitions t.state →
      Conforming t (actionAutoRetry eta t) := fun h => .allowed h
  rcases h with h | h | h
  · exact allowed (by rw [h]; decide)
  · exact .autoRetried eta h
  · exact allowed (by rw [h]; decide)

theorem UserAct.conforms {u : UserAct} {t t' : Task} (h : u.onTask t = .ok (some t')) :
    Conforming t t' := by
  cases u with
  | create v => cases h
  | lookupUniqueKey key =>
    obtain rfl := Option.some.inj (Except.ok.inj h)
    exact .kept rfl
  | write v =>
    obtain rfl := Option.some.inj (Except.ok.inj h)
    exact .kept rfl
  | storePhaseData vals =>
    obtain rfl := Option.some.inj (Except.ok.inj h)
    exact .kept rfl
  | enterPhase phase childIds =>
    obtain rfl := Option.some.inj (Except.ok.inj h)
    exact .kept rfl
  | actionCancel now =>
    obtain ⟨hs, rfl⟩ := checked_some h
    exact .allowed hs
  | actionRetry eta =>
    have hu := ok_of_map_some h
    obtain ⟨hf, rfl⟩ := actionRetry_ok hu
    have hs : TaskState.pending ∈ allowedTransitions t.state := by rw [hf]; decide
    exact .allowed hs
  | unlink => cases h

theorem handleFailure_conforms {now : ℕ} {exc : Exc} {tb : String} {read t t' : Task}
    (hs : t.state ∈ finalStates) (h : handleFailure reg now exc tb read t = .ok t') :
    Conforming t t' := by
  rcases handleFailure_cases h with ⟨-, _, rfl⟩ | ⟨-, h⟩
  · exact actionAutoRetry_conforms (.inr (by simpa [finalStates] using hs))
  · obtain ⟨hs, rfl⟩ := checked_ok h
    exact .allowed hs

theorem handleLostExecution_conforms {now : ℕ} {error : String} {t t' : Task}
    (hs : t.state ∈ inFlightStates) (h : handleLostExecution reg now error t = .ok t') :
    Conforming t t' := by
  rcases handleLostExecution_cases h with ⟨-, h⟩ | ⟨ha, -, rfl⟩ | ⟨-, -, h⟩
  · obtain ⟨hs, rfl⟩ := checked_ok h
    exact .allowed hs
  · refine actionAutoRetry_conforms (.inr ?_)
    simpa [inFlightStates, ha] using hs
  · obtain ⟨hs, rfl⟩ := checked_ok h
    exact .allowed hs

theorem RowAct.conforms {a : RowAct} {t t' : Task} (hs : a.selects (some t) = true)
    (h : a.run reg (some t) = .ok (some t')) : Conforming t t' := by
  change a.onTask reg t = .ok (some t') at h
  cases a with
  | user u => exact UserAct.conforms h
  | assign worker uuid =>
    refine of_map_some (fun u hu => ?_) h
    obtain ⟨hp, rfl⟩ := claimRow_eq hu
    have hs : TaskState.assigned ∈ allowedTransitions t.state := by rw [hp]; decide
    exact .allowed hs
  | start now =>
    obtain ⟨hs, rfl⟩ := checked_some h
    exact .allowed hs
  | stuck =>
    obtain ⟨hs, rfl⟩ := checked_some h
    exact .allowed hs
  | waitChildren =>
    obtain ⟨hs, rfl⟩ := checked_some h
    exact .allowed hs
  | progress value =>
    obtain rfl := Option.some.inj (Except.ok.inj h)
    exact .kept rfl
  | done runner now result =>
    obtain ⟨hs, rfl⟩ := checked_some h
    exact .allowed hs
  | failure runner now exc traceback read =>
    exact of_map_some (fun u hu => handleFailure_conforms (finalizable_iff.1 hs).1 hu) h
  | lostExecution runner worker now error =>
    exact of_map_some (fun u hu => handleLostExecution_conforms (finalizable_iff.1 hs).1 hu) h
  | autoRetry now =>
    obtain rfl := Option.some.inj (Except.ok.inj h)
    exact actionAutoRetry_conforms (.inl (autoRetryable_failed hs))
  | unown =>
    obtain rfl := Option.some.inj (Except.ok.inj h)
    exact .kept rfl
  | lockWaiting =>
    obtain rfl := Option.some.inj (Except.ok.inj h)
    exact .kept rfl
  | move now m =>
    cases m with
    | done result =>
      obtain ⟨hs, rfl⟩ := checked_some h
      exact .allowed hs
    | fail error =>
      obtain ⟨hs, rfl⟩ := checked_some h
      exact .allowed hs
    | cancel =>
      obtain ⟨hs, rfl⟩ := checked_some h
      exact .allowed hs

/-- Conforming writes do not leave `done` and `cancelled`. -/
theorem final_stays {t t' : Task} (h : Relation.ReflTransGen Conforming t t')
    (ht : t.state = .done ∨ t.state = .cancelled) : t'.state = t.state := by
  induction h with
  | refl => rfl
  | tail _ hlast ih =>
    rw [← ih] at ht
    cases hlast with
    | kept h => exact h.trans ih
    | allowed h => rcases ht with ht | ht <;> rw [ht] at h <;> cases h
    | autoRetried eta h => rcases ht with ht | ht <;> rw [ht] at h <;> cases h

/-- The rows that the statements leave, one after the other. -/
def written (reg : Registry) : List RowAct → Bool × Option Task → List Task
  | [], _ => []
  | a :: acts, p => match a.exec reg p with
    | .ok q => q.2.toList ++ written reg acts q
    | .error _ => []

/-- Without an insert, a row that is there at the end is there after the first statements. -/
theorem runActs_split {acts acts' : List RowAct} {b : Bool} {t t' : Task} {q : Bool × Option Task}
    (hc : ∀ a ∈ acts', a.creates = false) (h : runActs reg (acts ++ acts') (b, some t) = .ok q)
    (ht' : q.2 = some t') : ∃ b' u, runActs reg acts (b, some t) = .ok (b', some u) ∧
      runActs reg acts' (b', some u) = .ok q := by
  obtain ⟨⟨b', o⟩, h1, h2⟩ := runActs_append h
  cases o with
  | none =>
    rw [runActs_absent hc rfl h2] at ht'
    cases ht'
  | some u => exact ⟨b', u, h1, h2⟩

theorem exec_conforms {a : RowAct} {b : Bool} {t u : Task} {q : Bool × Option Task}
    (h : a.exec reg (b, some t) = .ok q) (hu : q.2 = some u) : Conforming t u := by
  rcases RowAct.exec_run h with ⟨hs, hr, -⟩ | ⟨-, heq⟩
  · rw [hu] at hr
    exact RowAct.conforms hs hr
  · rw [heq] at hu
    obtain rfl := Option.some.inj hu
    exact .kept rfl

theorem written_chain {acts : List RowAct} {b : Bool} {t t' : Task} {q : Bool × Option Task}
    (hc : ∀ a ∈ acts, a.creates = false) (h : runActs reg acts (b, some t) = .ok q)
    (ht' : q.2 = some t') :
    List.IsChain Conforming (t :: written reg acts (b, some t)) ∧
      (t :: written reg acts (b, some t)).getLast? = some t' := by
  induction acts generalizing b t with
  | nil =>
    obtain rfl := Except.ok.inj h
    exact ⟨.singleton t, ht'⟩
  | cons a acts ih =>
    have hc' : ∀ a ∈ acts, a.creates = false := fun a hm => hc a (List.mem_cons_of_mem _ hm)
    rw [← List.singleton_append] at h
    obtain ⟨b', u, h1, h2⟩ := runActs_split hc' h ht'
    obtain ⟨q', hexec, hq'⟩ := runActs_cons h1
    obtain rfl : q' = (b', some u) := Except.ok.inj hq'
    obtain ⟨hchain, hlast⟩ := ih hc' h2
    have hw : written reg (a :: acts) (b, some t) = u :: written reg acts (b', some u) := by
      simp only [written, hexec, Option.toList_some, List.singleton_append]
    rw [hw]
    exact ⟨List.isChain_cons_cons.2 ⟨exec_conforms hexec rfl, hchain⟩, hlast⟩

/-! ## The net change -/

/-- The state stays, or makes a move of the list. -/
def Goes (E : List (TaskState × TaskState)) (s s' : TaskState) : Prop := s' = s ∨ (s, s') ∈ E

instance (E : List (TaskState × TaskState)) (s s' : TaskState) : Decidable (Goes E s s') := by
  unfold Goes; infer_instance

/-- Each move of `E` after one of `E'` is one of `E''`. -/
def Composes (E E' E'' : List (TaskState × TaskState)) : Prop :=
  ∀ p ∈ E, ∀ q ∈ E', p.2 = q.1 → Goes E'' p.1 q.2

instance (E E' E'' : List (TaskState × TaskState)) : Decidable (Composes E E' E'') := by
  unfold Composes; infer_instance

theorem Goes.mono {E E' : List (TaskState × TaskState)} {s s' : TaskState} (hE : E ⊆ E')
    (h : Goes E s s') : Goes E' s s' := h.imp_right fun h => hE h

theorem Goes.join {E E' E'' : List (TaskState × TaskState)} {s₁ s₂ s₃ : TaskState}
    (h : Goes E s₁ s₂) (h' : Goes E' s₂ s₃) (hE : E ⊆ E'') (hE' : E' ⊆ E'')
    (hj : Composes E E' E'') : Goes E'' s₁ s₃ := by
  rcases h with rfl | h
  · exact h'.mono hE'
  · rcases h' with rfl | h'
    · exact .inr (hE h)
    · exact hj _ h _ h' rfl

def cancelMoves : List (TaskState × TaskState) :=
  (.failed :: activeStates).map fun s => (s, .cancelled)

/-- What users and task code do to the state of a task in one transaction. -/
def userMoves : List (TaskState × TaskState) := cancelMoves ++ [(.failed, .pending)]

def doneMoves : List (TaskState × TaskState) := [(.running, .done), (.stuck, .done)]

def failureMoves : List (TaskState × TaskState) :=
  [(.running, .pending), (.running, .failed), (.stuck, .pending), (.stuck, .failed)]

def lostMoves : List (TaskState × TaskState) := (.assigned, .pending) :: failureMoves

def parentMoves : List (TaskState × TaskState) :=
  [(.waiting, .done), (.waiting, .failed), (.waiting, .cancelled)]

/-- What a statement does to the state of a task. -/
def RowAct.transitions : RowAct → List (TaskState × TaskState)
  | .user (.actionCancel _) => cancelMoves
  | .user (.actionRetry _) => [(.failed, .pending)]
  | .user _ => []
  | .assign _ _ => [(.pending, .assigned)]
  | .start _ => [(.assigned, .running)]
  | .stuck => [(.running, .stuck)]
  | .waitChildren => [(.running, .waiting)]
  | .progress _ => []
  | .done _ _ _ => doneMoves
  | .failure _ _ _ _ _ => failureMoves
  | .lostExecution _ _ _ _ => lostMoves
  | .autoRetry _ => [(.failed, .pending)]
  | .unown => []
  | .lockWaiting => []
  | .move _ _ => parentMoves

/-- The net changes that a transaction commits. -/
def Tx.transitions : Tx → List (TaskState × TaskState)
  | .user _ => userMoves
  | .claimTask _ _ _ => [(.pending, .assigned)]
  | .actionStart _ _ _ => [(.assigned, .running)]
  | .execute _ _ _ _ (.returns _) => userMoves ++ doneMoves
  | .execute _ _ _ _ .waits => userMoves ++ [(.running, .waiting)]
  | .failureHandler _ _ _ _ _ _ => userMoves ++ failureMoves
  | .updateProgress _ => []
  | .timeoutTask _ _ _ => [(.running, .stuck)]
  | .recoverLostExecutions _ _ _ _ _ => userMoves ++ lostMoves
  | .resolvedStuckThread _ _ _ _ => userMoves ++ lostMoves
  | .autoRetryFailed _ _ _ => [(.failed, .pending)]
  | .checkWaitingParent _ _ _ _ => userMoves ++ parentMoves

/-- They are in the table, but for that of a running task that goes back to `pending`. -/
theorem Tx.transitions_allowed (a : Tx) : ∀ p ∈ a.transitions,
    p.2 ∈ allowedTransitions p.1 ∨ p = (.running, .pending) := by
  cases a with
  | execute runner id now body outcome => cases outcome <;> simp only [Tx.transitions] <;> decide
  | _ => simp only [Tx.transitions]; decide

theorem allowed_cancelled {s : TaskState} (h : .cancelled ∈ allowedTransitions s) :
    (s, .cancelled) ∈ cancelMoves := by
  revert h
  cases s <;> decide

theorem final_moves {s : TaskState} (h : s ∈ finalStates) :
    (s, .done) ∈ doneMoves ∧ (s, .pending) ∈ failureMoves ∧ (s, .failed) ∈ failureMoves := by
  revert h
  cases s <;> decide

theorem lost_moves {s : TaskState} (h : s ∈ inFlightStates) :
    (s, .pending) ∈ lostMoves ∧ (s ≠ .assigned → (s, .failed) ∈ lostMoves) := by
  revert h
  cases s <;> decide

theorem parent_moves (m : ParentMove) {now : ℕ} {t t' : Task} (hw : t.state = .waiting)
    (h : (RowAct.move now m).onTask reg t = .ok (some t')) :
    (t.state, t'.state) ∈ parentMoves := by
  rw [hw]
  cases m <;> obtain ⟨-, rfl⟩ := checked_some h <;> simp [parentMoves]

/-- A statement that goes through makes one of its moves. -/
theorem RowAct.transitions_spec {a : RowAct} {t t' : Task} (hs : a.selects (some t) = true)
    (h : a.run reg (some t) = .ok (some t')) : Goes a.transitions t.state t'.state := by
  change a.onTask reg t = .ok (some t') at h
  cases a with
  | user u =>
    cases u with
    | create v => cases h
    | actionCancel now =>
      obtain ⟨hc, rfl⟩ := checked_some h
      exact .inr (allowed_cancelled hc)
    | actionRetry eta =>
      obtain ⟨hf, rfl⟩ := actionRetry_ok (ok_of_map_some h)
      rw [hf]
      exact .inr List.mem_cons_self
    | unlink => cases h
    | _ =>
      obtain rfl := Option.some.inj (Except.ok.inj h)
      exact .inl rfl
  | assign worker uuid =>
    obtain ⟨hp, rfl⟩ := claimRow_eq (ok_of_map_some h)
    rw [hp]
    exact .inr List.mem_cons_self
  | start now =>
    obtain ⟨hc, rfl⟩ := checked_some h
    rw [of_allowed_running hc]
    exact .inr List.mem_cons_self
  | stuck =>
    obtain ⟨hc, rfl⟩ := checked_some h
    rw [of_allowed_stuck hc]
    exact .inr List.mem_cons_self
  | waitChildren =>
    obtain ⟨hc, rfl⟩ := checked_some h
    rw [of_allowed_waiting hc]
    exact .inr List.mem_cons_self
  | done runner now result =>
    obtain ⟨-, rfl⟩ := checked_some h
    exact .inr (final_moves (finalizable_iff.1 hs).1).1
  | failure runner now exc traceback read =>
    obtain ⟨-, hpending, hfailed⟩ := final_moves (finalizable_iff.1 hs).1
    rcases handleFailure_cases (ok_of_map_some h) with ⟨-, _, rfl⟩ | ⟨-, h⟩
    · exact .inr hpending
    · obtain ⟨-, rfl⟩ := checked_ok h
      exact .inr hfailed
  | lostExecution runner worker now error =>
    obtain ⟨hpending, hfailed⟩ := lost_moves (finalizable_iff.1 hs).1
    rcases handleLostExecution_cases (ok_of_map_some h) with ⟨-, h⟩ | ⟨-, -, rfl⟩ | ⟨ha, -, h⟩
    · obtain ⟨-, rfl⟩ := checked_ok h
      exact .inr hpending
    · exact .inr hpending
    · obtain ⟨-, rfl⟩ := checked_ok h
      exact .inr (hfailed ha)
  | autoRetry now =>
    obtain rfl := Option.some.inj (Except.ok.inj h)
    rw [autoRetryable_failed hs]
    exact .inr List.mem_cons_self
  | move now m => exact .inr (parent_moves m (of_decide_eq_true hs) h)
  | _ =>
    obtain rfl := Option.some.inj (Except.ok.inj h)
    exact .inl rfl

theorem runActs_moves {E : List (TaskState × TaskState)} {acts : List RowAct} {b : Bool}
    {t t' : Task} {q : Bool × Option Task} (hE : Composes E E E)
    (hc : ∀ a ∈ acts, a.creates = false) (ha : ∀ a ∈ acts, a.transitions ⊆ E)
    (h : runActs reg acts (b, some t) = .ok q) (ht' : q.2 = some t') :
    Goes E t.state t'.state :=
  runActs_task (R := fun t t' => Goes E t.state t'.state) (fun _ => .inl rfl)
    (fun h h' => h.join h' (List.Subset.refl E) (List.Subset.refl E) hE) hc
    (fun a hm _ _ hs hr => (RowAct.transitions_spec hs hr).mono (ha a hm)) h ht'

theorem runActs_moves_append {E E' E'' : List (TaskState × TaskState)} {acts acts' : List RowAct}
    {b : Bool} {t t' : Task} {q : Bool × Option Task} (hE : Composes E E E)
    (hE' : Composes E' E' E') (hj : Composes E E' E'') (hsub : E ⊆ E'') (hsub' : E' ⊆ E'')
    (hc : ∀ a ∈ acts ++ acts', a.creates = false) (ha : ∀ a ∈ acts, a.transitions ⊆ E)
    (ha' : ∀ a ∈ acts', a.transitions ⊆ E') (h : runActs reg (acts ++ acts') (b, some t) = .ok q)
    (ht' : q.2 = some t') : Goes E'' t.state t'.state := by
  obtain ⟨hc, hc'⟩ := List.forall_mem_append.1 hc
  obtain ⟨b', u, h1, h2⟩ := runActs_split hc' h ht'
  exact (runActs_moves hE hc ha h1 rfl).join (runActs_moves hE' hc' ha' h2 ht') hsub hsub' hj

def onRow (k : TaskId) (stmts : List (TaskId × RowAct)) : List RowAct :=
  (stmts.filter fun p => p.1 = k).map Prod.snd

theorem onRow_append (k : TaskId) (l l' : List (TaskId × RowAct)) :
    onRow k (l ++ l') = onRow k l ++ onRow k l' := by
  unfold onRow
  rw [List.filter_append, List.map_append]

theorem onRow_moves {E : List (TaskState × TaskState)} {l : List (TaskId × RowAct)}
    (h : ∀ p ∈ l, p.2.transitions ⊆ E) : ∀ a ∈ onRow k l, a.transitions ⊆ E := by
  intro a hm
  obtain ⟨p, hp, rfl⟩ := List.mem_map.1 hm
  exact h p (List.mem_of_mem_filter hp)

theorem userStmts_moves (body : List (TaskId × UserAct)) :
    ∀ p ∈ userStmts body, p.2.transitions ⊆ userMoves := by
  intro p hp
  obtain ⟨⟨id, u⟩, -, rfl⟩ := List.mem_map.1 hp
  cases u with
  | actionCancel now => exact List.subset_append_left _ _
  | actionRetry eta => exact List.subset_append_right _ _
  | _ => exact List.nil_subset _

/-- **The net change of a transaction.** Task code comes before what the queue does to the task, or
after it. -/
theorem Tx.acts_transitions {a : Tx} {σ : Snapshot TaskId Task} {L : List TaskId} {b : Bool}
    {t t' : Task} {q : Bool × Option Task} (hc : ∀ act ∈ a.acts reg σ L k, act.creates = false)
    (h : runActs reg (a.acts reg σ L k) (b, some t) = .ok q) (ht' : q.2 = some t') :
    Goes a.transitions t.state t'.state := by
  change ∀ act ∈ onRow k (a.stmts reg σ L), _ at hc
  change runActs reg (onRow k (a.stmts reg σ L)) _ = _ at h
  have one : ∀ {E : List (TaskState × TaskState)}, Composes E E E →
      (∀ p ∈ a.stmts reg σ L, p.2.transitions ⊆ E) → Goes E t.state t'.state :=
    fun hE hl => runActs_moves hE hc (onRow_moves hl) h ht'
  have two : ∀ {E E' E'' : List (TaskState × TaskState)} {l l' : List (TaskId × RowAct)},
      a.stmts reg σ L = l ++ l' → Composes E E E ∧ Composes E' E' E' ∧ Composes E E' E'' →
      E ⊆ E'' ∧ E' ⊆ E'' → (∀ p ∈ l, p.2.transitions ⊆ E) → (∀ p ∈ l', p.2.transitions ⊆ E') →
      Goes E'' t.state t'.state := by
    intro E E' E'' l l' hl hj hsub hm hm'
    rw [hl, onRow_append] at hc h
    exact runActs_moves_append hj.1 hj.2.1 hj.2.2 hsub.1 hsub.2 hc (onRow_moves hm)
      (onRow_moves hm') h ht'
  have ofLocked : ∀ {body : List (TaskId × UserAct)}, ∀ p ∈ (if L = [] then [] else
      userStmts body), p.2.transitions ⊆ userMoves := by
    intro body p hp
    split_ifs at hp
    · cases hp
    · exact userStmts_moves body p hp
  cases a with
  | user body => exact one (E := userMoves) (by decide) (userStmts_moves body)
  | claimTask c rank uuid =>
    refine one (E := [(.pending, .assigned)]) (by decide) fun p hp => ?_
    obtain ⟨_, -, rfl⟩ := List.mem_map.1 hp
    exact List.Subset.refl _
  | actionStart runner id now =>
    exact one (E := [(.assigned, .running)]) (by decide)
      (List.forall_mem_singleton.2 (List.Subset.refl _))
  | execute runner id now body outcome =>
    cases outcome with
    | returns result =>
      show Goes (userMoves ++ doneMoves) t.state t'.state
      exact two rfl (by decide) (by decide) (userStmts_moves body)
        (List.forall_mem_singleton.2 (List.Subset.refl doneMoves))
    | waits =>
      show Goes (userMoves ++ RowAct.waitChildren.transitions) t.state t'.state
      exact two rfl (by decide) (by decide) (userStmts_moves body)
        (List.forall_mem_singleton.2 (List.Subset.refl RowAct.waitChildren.transitions))
  | failureHandler runner id now body exc traceback =>
    show Goes (userMoves ++ failureMoves) t.state t'.state
    refine two (E := userMoves) rfl (by decide) (by decide) (fun p hp => ?_)
      (List.forall_mem_singleton.2 (List.Subset.refl failureMoves))
    split_ifs at hp
    · cases hp
    · exact userStmts_moves body p hp
  | updateProgress ticks =>
    refine one (E := []) (by decide) fun p hp => ?_
    obtain ⟨_, -, rfl⟩ := List.mem_map.1 hp
    exact List.Subset.refl _
  | timeoutTask runner id alive =>
    refine one (E := [(.running, .stuck)]) (by decide) fun p hp => ?_
    change p ∈ (if alive then [(id, RowAct.stuck)] else []) at hp
    split_ifs at hp
    · obtain rfl := List.mem_singleton.1 hp
      exact List.Subset.refl _
    · cases hp
  | recoverLostExecutions waiting ids now error body =>
    show Goes (userMoves ++ lostMoves) t.state t'.state
    refine two (E := lostMoves) (List.append_assoc _ _ _).symm (by decide) (by decide)
      (fun p hp => ?_) ofLocked
    rcases List.mem_append.1 hp with hp | hp <;> obtain ⟨_, -, rfl⟩ := List.mem_map.1 hp
    · exact List.nil_subset _
    · exact List.Subset.refl _
  | resolvedStuckThread runner id now body =>
    by_cases hs : (σ.row id).any (fun t => t.state = .stuck ∧ t.runnerId = some runner) = true
    · show Goes (userMoves ++ lostMoves) t.state t'.state
      exact two (l := [_]) (if_pos hs) (by decide) (by decide)
        (List.forall_mem_singleton.2 (List.Subset.refl lostMoves)) ofLocked
    · refine (one (E := []) (by decide) fun p hp => ?_).mono (List.nil_subset _)
      rw [show (Tx.resolvedStuckThread runner id now body).stmts reg σ L = [] from if_neg hs] at hp
      cases hp
  | autoRetryFailed w rank now =>
    refine one (E := [(.failed, .pending)]) (by decide) fun p hp => ?_
    obtain ⟨_, -, rfl⟩ := List.mem_map.1 hp
    exact List.Subset.refl _
  | checkWaitingParent id now body verdict =>
    by_cases hL : L = []
    · refine (one (E := []) (by decide) fun p hp => ?_).mono (List.nil_subset _)
      have hl : (Tx.checkWaitingParent id now body verdict).stmts reg σ L =
          [(id, .lockWaiting)] := by
        show _ :: (if L = [] then _ else _) = _
        rw [if_pos hL]
      rw [hl] at hp
      obtain rfl := List.mem_singleton.1 hp
      exact List.nil_subset _
    · have hl : (Tx.checkWaitingParent id now body verdict).stmts reg σ L =
          ((id, .lockWaiting) :: userStmts body) ++
            verdict.toList.map fun m => (id, RowAct.move now m) := by
        show _ :: (if L = [] then _ else _) = _
        rw [if_neg hL]
        rfl
      have hm : ∀ p ∈ verdict.toList.map fun m => (id, RowAct.move now m),
          p.2.transitions ⊆ parentMoves := by
        intro p hp
        obtain ⟨m, -, rfl⟩ := List.mem_map.1 hp
        exact List.Subset.refl _
      show Goes (userMoves ++ parentMoves) t.state t'.state
      exact two hl (by decide) (by decide)
        (List.forall_mem_cons.2 ⟨List.nil_subset _, userStmts_moves body⟩) hm

/-- **Conformance.** In every run, a step leaves the state of a task, or commits a transaction that
changes it by one of its moves: one of `ALLOWED_TRANSITIONS`, or that of a running task to
`pending`. The rows that the transaction writes, one after the other, end at the committed one, and
each is the one before with a state that the table allows, or with an automatic retry of a running
task. In particular `done` and `cancelled` are never left. -/
theorem committed_change_conforms {s₀ : Sys} {es : List Ev} {t t' : Task} (h0 : Start s₀)
    (hp : Path (Sys.step reg) anyStep s₀ es s) (h : s.step reg ev = some s')
    (ht : s.db.cur.row k = some t) (ht' : s'.db.cur.row k = some t') :
    (t'.state = t.state ∨ t'.state ∈ allowedTransitions t.state ∨
      (t.state = .running ∧ t'.state = .pending)) ∧
    (t' = t ∨ ∃ i x, ev = .db (.commit i) ∧ s.db.txns i = some x ∧
      Goes x.act.transitions t.state t'.state ∧
      List.IsChain Conforming
        (t :: written reg (x.act.acts reg x.snap x.locked k) (false, some t)) ∧
      (t :: written reg (x.act.acts reg x.snap x.locked k) (false, some t)).getLast? = some t') ∧
    (t.state = .done ∨ t.state = .cancelled → t'.state = t.state) := by
  have hi : Inv reg s := h0.inv.path hp
  have hd : Drawn s := Drawn.path h0 hp
  rcases Sys.row_run hi h k with hsame | ⟨i, x, b, hev, hx, hrow, hrun⟩
  · rw [hsame, ht] at ht'
    obtain rfl := Option.some.inj ht'
    exact ⟨.inl rfl, .inl rfl, fun _ => rfl⟩
  · rw [ht] at hrow hrun
    have hc : ∀ a ∈ x.act.acts reg x.snap x.locked k, a.creates = false := hd.no_create hx hrow
    have hmoves : Goes x.act.transitions t.state t'.state := Tx.acts_transitions hc hrun ht'
    have hnet : t'.state = t.state ∨ t'.state ∈ allowedTransitions t.state ∨
        (t.state = .running ∧ t'.state = .pending) :=
      hmoves.imp_right fun hm => (x.act.transitions_allowed _ hm).imp_right Prod.mk.inj
    obtain ⟨hchain, hlast⟩ := written_chain hc hrun ht'
    refine ⟨hnet, .inr ⟨i, x, hev, hx, hmoves, hchain, hlast⟩, fun hfinal => ?_⟩
    rcases hnet with hs | hs | ⟨hs, -⟩
    · exact hs
    · rcases hfinal with hf | hf <;> rw [hf] at hs <;> cases hs
    · rcases hfinal with hf | hf <;> rw [hf] at hs <;> cases hs

def exportVals : TaskVals :=
  { id := 1, name := "export", typeCode := "export", retryPolicy := .retryAny, maxRetries := 3
    dateCreated := 10, createUid := 2 }

/-- Claimed, started, and its execution has raised; the failure handler is about to commit. -/
def failedOnce : List Ev := [
  .db (.begin (.claimTask (exportClaim 1) id fun _ => 7)), .db (.lock 0), .db (.commit 0),
  .db (.begin (.actionStart 7 1 101)), .db (.lock 1), .db (.commit 1),
  .db (.begin (.execute 7 1 102 [] (.returns none))), .db (.abort 2),
  .db (.begin (.failureHandler 7 1 103 [] (.other "boom") "Traceback")), .db (.lock 3)]

/-- The exception to the table: a running task that goes back to `pending`. -/
theorem failedOnce_conforms : ∃ s s' t t', Path (Sys.step []) anyStep (Sys.init oneTask)
      failedOnce s ∧ s.step [] (.db (.commit 3)) = some s' ∧ s.db.cur.row 1 = some t ∧
    s'.db.cur.row 1 = some t' ∧ t.state = .running ∧ t'.state = .pending ∧
    ∃ i x, Ev.db (.commit 3) = .db (.commit i) ∧ s.db.txns i = some x ∧
      Goes x.act.transitions t.state t'.state ∧
      List.IsChain Conforming
        (t :: written [] (x.act.acts [] x.snap x.locked 1) (false, some t)) ∧
      (t :: written [] (x.act.acts [] x.snap x.locked 1) (false, some t)).getLast? = some t' := by
  have hp : Path (Sys.step []) anyStep (Sys.init oneTask) failedOnce _ :=
    path_reached (by decide +kernel)
  obtain ⟨s, hs⟩ : ∃ s, s = reached (Sys.step []) anyStep (Sys.init oneTask) failedOnce := ⟨_, rfl⟩
  obtain ⟨t, ht, hrun⟩ : ∃ t, s.db.cur.row 1 = some t ∧ t.state = .running := by
    rw [hs]; exact ⟨_, rfl, rfl⟩
  obtain ⟨s', t', hs', ht', hpend⟩ : ∃ s' t', s.step [] (.db (.commit 3)) = some s' ∧
      s'.db.cur.row 1 = some t' ∧ t'.state = .pending := by
    rw [hs]; exact ⟨_, _, rfl, rfl, rfl⟩
  rw [← hs] at hp
  refine ⟨s, s', t, t', hp, hs', ht, ht', hrun, hpend,
    (committed_change_conforms (Start.init (by decide)) hp hs' ht ht').2.1.resolve_left ?_⟩
  rintro rfl
  rw [hrun] at hpend
  cases hpend

end GenericTaskQueue
