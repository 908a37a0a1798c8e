import GenericBackground.Lib.Path
import Mathlib.Data.List.Infix

/-!
# A loop that is stopped through two flags

A thread runs a loop, and other threads signal to it through two flags. It tests `stop`; it sleeps
on `wakeup`, which it clears after each sleep. A stop call sets `stop` and then, in a second step,
`wakeup`. The loop is given by its control-flow graph, with each operation on a flag a point of its
own; the calls of the other threads come in between in any order.

1. Once a stop call has returned, `stop` is set, so the loop only goes along the edges of
   `Onward`, on which a test of `stop` has one outcome.
2. Wherever a sleep may still lie ahead on these edges (`ToWait`), `wakeup` is set
   (`Signalled`): it is cleared only where none lies ahead (`Stoppable.clear`).
3. The edges descend a rank (`Stoppable.descends`), so the loop is left after boundedly many
   steps, and what it still does is part of what lies ahead of it (`Stoppable.emitted_prefix`).
-/

namespace StopWake

open Lts

/-- What the loop does at a point. -/
inductive Op (P : Type*) where
  /-- Code that touches neither flag. It ends at one of the points `next`. -/
  | act (next : List P)
  | test (stopped running : P)
  /-- Returns when `wakeup` is set, or when the timer has run out. -/
  | wait (next : P)
  | clear (next : P)
  /-- The loop has been left. -/
  | exit

/-- Where the loop may go next without its timer. -/
def Op.next {P : Type*} (stop wakeup : Bool) : Op P → List P
  | .act next => next
  | .test stopped running => [if stop then stopped else running]
  | .wait next => if wakeup then [next] else []
  | .clear next => [next]
  | .exit => []

/-- Where the loop goes when the timer of its wait has run out. -/
def Op.expires {P : Type*} : Op P → Option P
  | .wait next => some next
  | _ => none

/-- The state of `wakeup` after the operation. -/
def Op.wakeup {P : Type*} (wakeup : Bool) : Op P → Bool
  | .clear _ => false
  | _ => wakeup

/-- The control-flow graph of a loop; `raises` is where an exception leads that is raised at a point
of any kind. -/
structure Loop (P : Type*) where
  start : P
  op : P → Op P
  raises : P → Option P := fun _ => none

structure State (P : Type*) where
  pc : P
  stop : Bool := false
  wakeup : Bool := false
  /-- How many stop calls have set `stop` and not yet `wakeup`. -/
  stopping : ℕ := 0
  deriving DecidableEq, Repr

inductive Ev (P : Type*) where
  | own (next : P)
  | timeout
  | raise
  /-- The first half of a stop call. -/
  | stopSet
  /-- Its second half: it sets `wakeup` and returns. -/
  | stopReturn
  | wakeup
  deriving DecidableEq, Repr

def Ev.isOwn {P : Type*} : Ev P → Bool
  | .own _ => true
  | .timeout => true
  | .raise => true
  | _ => false

namespace Loop

variable {P : Type*} (L : Loop P)

def init : State P := { pc := L.start }

def Onward (p q : P) : Prop := q ∈ (L.op p).next true true ∨ L.raises p = some q

/-- The loop may come to a wait without a test of `stop` that ends it. -/
inductive ToWait : P → Prop
  | wait {p q : P} (h : L.op p = .wait q) : ToWait p
  | onward {p q : P} (h : L.Onward p q) (hq : ToWait q) : ToWait p

/-- A stop signal is under way to the loop. -/
structure Signalled (s : State P) : Prop where
  stop : s.stop = true
  wakeup : L.ToWait s.pc → s.wakeup = true

/-- What makes a loop stop when it is told to. -/
structure Stoppable (rank : P → ℕ) : Prop where
  descends : ∀ p q, L.Onward p q → rank q < rank p
  clear : ∀ p q, L.op p = .clear q → ¬ L.ToWait q
  act : ∀ p next, L.op p = .act next → next ≠ []

/-- How many steps of the loop an event is. -/
def ownSteps : State P → Ev P → ℕ := fun _ e => if e.isOwn then 1 else 0

/-- What the loop does, where `work` says what it does at a point. -/
def doing {O : Type*} (work : P → List O) : State P → Ev P → List O :=
  fun s e => if e.isOwn then work s.pc else []

variable [DecidableEq P]

def step (s : State P) : Ev P → Option (State P)
  | .own p =>
    if p ∈ (L.op s.pc).next s.stop s.wakeup then
      some { s with pc := p, wakeup := (L.op s.pc).wakeup s.wakeup }
    else none
  | .timeout => (L.op s.pc).expires.map fun p => { s with pc := p }
  | .raise => (L.raises s.pc).map fun p => { s with pc := p }
  | .stopSet => some { s with stop := true, stopping := s.stopping + 1 }
  | .stopReturn =>
    if 0 < s.stopping then some { s with wakeup := true, stopping := s.stopping - 1 } else none
  | .wakeup => some { s with wakeup := true }

/-- A stop call has just returned, in some run. -/
def Returned (s : State P) : Prop :=
  ∃ es s₀, Path L.step anyStep L.init es s₀ ∧ L.step s₀ .stopReturn = some s

variable {L}

/-! ## One step -/

omit [DecidableEq P] in
theorem next_onward {stop wakeup : Bool} {p q : P} (hstop : stop = true)
    (h : q ∈ (L.op p).next stop wakeup) : L.Onward p q := by
  refine .inl ?_
  subst hstop
  cases hop : L.op p with
  | act next => rwa [hop] at h
  | test stopped running => rwa [hop] at h
  | clear next => rwa [hop] at h
  | exit => rwa [hop] at h
  | wait next =>
    rw [hop] at h
    cases wakeup with
    | false => cases h
    | true => exact h

omit [DecidableEq P] in
theorem expires_onward {p q : P} (h : (L.op p).expires = some q) : L.Onward p q := by
  cases hop : L.op p with
  | wait next =>
    rw [hop] at h
    obtain rfl := Option.some.inj h
    exact .inl (by rw [hop]; exact List.mem_singleton_self _)
  | _ => rw [hop] at h; cases h

theorem own_some {s s' : State P} {p : P} (h : L.step s (.own p) = some s') :
    p ∈ (L.op s.pc).next s.stop s.wakeup ∧
      s' = { s with pc := p, wakeup := (L.op s.pc).wakeup s.wakeup } := by
  obtain ⟨hmem, hs⟩ := Option.ite_none_right_eq_some.1 h
  exact ⟨hmem, (Option.some.inj hs).symm⟩

theorem stopReturn_some {s s' : State P} (h : L.step s .stopReturn = some s') :
    0 < s.stopping ∧ s' = { s with wakeup := true, stopping := s.stopping - 1 } := by
  obtain ⟨hpos, hs⟩ := Option.ite_none_right_eq_some.1 h
  exact ⟨hpos, (Option.some.inj hs).symm⟩

theorem step_cases {s s' : State P} {e : Ev P} (h : L.step s e = some s') :
    (e.isOwn = true ∧ (s.stop = true → L.Onward s.pc s'.pc) ∧ s'.stop = s.stop ∧
      (s'.wakeup = s.wakeup ∨ ∃ q, L.op s.pc = .clear q ∧ s'.pc = q)) ∨
    (e.isOwn = false ∧ s'.pc = s.pc ∧ (s.stop = true → s'.stop = true) ∧
      (s.wakeup = true → s'.wakeup = true)) := by
  cases e with
  | own p =>
    obtain ⟨hmem, rfl⟩ := own_some h
    refine .inl ⟨rfl, fun hs => next_onward hs hmem, rfl, ?_⟩
    cases hop : L.op s.pc with
    | clear q =>
      rw [hop] at hmem
      exact .inr ⟨q, rfl, List.mem_singleton.1 hmem⟩
    | _ => exact .inl (by simp only [Op.wakeup])
  | timeout =>
    obtain ⟨p, hp, rfl⟩ := Option.map_eq_some_iff.1 h
    exact .inl ⟨rfl, fun _ => expires_onward hp, rfl, .inl rfl⟩
  | raise =>
    obtain ⟨p, hp, rfl⟩ := Option.map_eq_some_iff.1 h
    exact .inl ⟨rfl, fun _ => .inr hp, rfl, .inl rfl⟩
  | stopSet =>
    cases h
    exact .inr ⟨rfl, rfl, fun _ => rfl, id⟩
  | stopReturn =>
    obtain ⟨-, rfl⟩ := stopReturn_some h
    exact .inr ⟨rfl, rfl, id, fun _ => rfl⟩
  | wakeup =>
    cases h
    exact .inr ⟨rfl, rfl, id, fun _ => rfl⟩

theorem stop_of_stopping {s : State P} {es : List (Ev P)} (h : Path L.step anyStep L.init es s) :
    0 < s.stopping → s.stop = true := by
  refine h.inv (I := fun s => 0 < s.stopping → s.stop = true) ?_
    (fun h0 => absurd h0 (by simp [init]))
  intro s e s' ih _ hs
  cases e with
  | own p =>
    obtain ⟨-, rfl⟩ := own_some hs
    exact ih
  | timeout =>
    obtain ⟨p, -, rfl⟩ := Option.map_eq_some_iff.1 hs
    exact ih
  | raise =>
    obtain ⟨p, -, rfl⟩ := Option.map_eq_some_iff.1 hs
    exact ih
  | stopSet => cases hs; exact fun _ => rfl
  | stopReturn =>
    obtain ⟨hpos, rfl⟩ := stopReturn_some hs
    exact fun _ => ih hpos
  | wakeup => cases hs; exact ih

theorem Returned.signalled {s : State P} (h : L.Returned s) : L.Signalled s := by
  obtain ⟨es, s₀, hp, hs⟩ := h
  obtain ⟨hpos, rfl⟩ := stopReturn_some hs
  have hstop := stop_of_stopping hp hpos
  exact ⟨hstop, fun _ => rfl⟩

/-! ## Until the loop is left -/

namespace Stoppable

variable {rank : P → ℕ} (hL : L.Stoppable rank) {s s' t : State P} {e : Ev P} {es : List (Ev P)}

include hL

theorem signalled_step (h : L.Signalled s) (hs : L.step s e = some s') : L.Signalled s' := by
  rcases step_cases hs with ⟨-, hon, hstop, hwake⟩ | ⟨-, hpc, hstop, hwake⟩
  · refine ⟨hstop.trans h.stop, fun hto => ?_⟩
    rcases hwake with hwake | ⟨q, hq, hpc⟩
    · rw [hwake]
      exact h.wakeup (.onward (hon h.stop) hto)
    · -- nothing sleeps after a clear
      rw [hpc] at hto
      exact absurd hto (hL.clear _ _ hq)
  · refine ⟨hstop h.stop, fun hto => hwake (h.wakeup ?_)⟩
    rwa [hpc] at hto

theorem signalled (h : L.Signalled s) (hp : Path L.step anyStep s es t) : L.Signalled t :=
  hp.inv (fun _ _ _ hi _ hs => hL.signalled_step hi hs) h

theorem pc_inv {A : P → Prop} (hA : ∀ p q, L.Onward p q → A p → A q) (h : L.Signalled s)
    (hp : Path L.step anyStep s es t) (h0 : A s.pc) : A t.pc := by
  refine hp.inv_of (I := fun s => A s.pc) (J := L.Signalled)
    (fun _ _ _ hi _ hs => hL.signalled_step hi hs) (fun s e s' hi ha _ hs => ?_) h h0
  rcases step_cases hs with ⟨-, hon, -, -⟩ | ⟨-, hpc, -, -⟩
  · exact hA _ _ (hon hi.stop) ha
  · rwa [hpc]

theorem steps_add_rank_le (h : L.Signalled s) (hp : Path L.step anyStep s es t) :
    total L.step ownSteps s es + rank t.pc ≤ rank s.pc := by
  have zero : total L.step (fun _ _ => 0) s es = 0 := by
    clear h
    induction hp with
    | nil s => rfl
    | cons _ hs _ ih => simpa only [total, hs, Option.map_some, Option.getD_some, Nat.zero_add]
  have key : (total L.step ownSteps s es : ℤ) + rank t.pc ≤
      rank s.pc + total L.step (fun _ _ => 0) s es := by
    refine hp.total_potential (I := L.Signalled) (f := fun s => (rank s.pc : ℤ)) ?_ h
    intro s e s' hi _ hs
    refine ⟨hL.signalled_step hi hs, ?_⟩
    rcases step_cases hs with ⟨hown, hon, -, -⟩ | ⟨hown, hpc, -, -⟩
    · have := hL.descends _ _ (hon hi.stop)
      simp only [ownSteps, hown, if_true]
      omega
    · simp only [ownSteps, hown, hpc]
      simp
  omega

theorem emitted_prefix {O : Type*} {work ahead : P → List O}
    (hw : ∀ p q, L.Onward p q → work p ++ ahead q <+: ahead p) (h : L.Signalled s)
    (hp : Path L.step anyStep s es t) :
    emitted L.step (doing work) s es ++ ahead t.pc <+: ahead s.pc := by
  induction hp with
  | nil s => exact List.prefix_rfl
  | @cons s s₁ s₂ e es _ hs _ ih =>
    have hrest := ih (hL.signalled_step h hs)
    simp only [emitted, hs, Option.map_some, Option.getD_some, List.append_assoc]
    rcases step_cases hs with ⟨hown, hon, -, -⟩ | ⟨hown, hpc, -, -⟩
    · simp only [doing, hown, if_true]
      exact ((List.prefix_append_right_inj _).2 hrest).trans (hw _ _ (hon h.stop))
    · rw [hpc] at hrest
      simpa [doing, hown] using hrest

/-- The loop never needs its timer again. -/
theorem exists_step (h : L.Signalled s) (hpc : L.op s.pc ≠ .exit) :
    ∃ p s', L.step s (.own p) = some s' := by
  have go : ∀ p, p ∈ (L.op s.pc).next s.stop s.wakeup → ∃ p s', L.step s (.own p) = some s' :=
    fun p hp => ⟨p, _, if_pos hp⟩
  cases hop : L.op s.pc with
  | act next =>
    obtain ⟨p, hp⟩ := List.exists_mem_of_ne_nil _ (hL.act _ _ hop)
    exact go p (by rw [hop]; exact hp)
  | test stopped running => exact go _ (by rw [hop]; exact List.mem_singleton_self _)
  | wait q =>
    have hw := h.wakeup (.wait hop)
    exact go q (by rw [hop, hw]; exact List.mem_singleton_self q)
  | clear q => exact go q (by rw [hop]; exact List.mem_singleton_self q)
  | exit => exact absurd hop hpc

end Stoppable

end Loop

end StopWake
