import Mathlib.Algebra.Order.Group.Int
import Mathlib.Algebra.Order.Group.Unbundled.Basic
import Mathlib.Order.Monotone.Basic
import Mathlib.Tactic.Common

/-!
# The stuck watchdog

`_check_stuck` counts down with one timestamp, `_service_stuck_since`: it is set at the first stuck
beat, compared at the later ones, and reset by a call of `_on_service_stuck` and by a beat that is
not stuck. So it stands for the first beat of an unbroken run of stuck beats (`stuckSince_spec`),
and the call comes once the run is as old as the timeout (`calls_iff`).

If `_on_service_stuck` raises, the exception ends the loop and there is no later beat.
-/

namespace GenericBackgroundService

/-- What `_check_stuck` finds at a beat: the answer of `is_stuck()`, and the clock. -/
structure Beat (τ : Type*) where
  stuck : Bool
  now : τ
  deriving DecidableEq, Repr

section Watchdog

variable {τ : Type*} [AddCommGroup τ] [LinearOrder τ]

/-- `_check_stuck`: the new `_service_stuck_since`, and whether `_on_service_stuck` is called. -/
def checkStuck (dieOnStuckTimeout : τ) (stuckSince : Option τ) (b : Beat τ) : Option τ × Bool :=
  if dieOnStuckTimeout = 0 then (stuckSince, false)
  else if b.stuck then match stuckSince with
    | none => (some b.now, false)
    | some since => if dieOnStuckTimeout ≤ b.now - since then (none, true) else (some since, false)
  else (none, false)

/-- `_service_stuck_since` before beat `n`. -/
def stuckSince (dieOnStuckTimeout : τ) (beat : ℕ → Beat τ) : ℕ → Option τ
  | 0 => none
  | n + 1 => (checkStuck dieOnStuckTimeout (stuckSince dieOnStuckTimeout beat n) (beat n)).1

def calls (dieOnStuckTimeout : τ) (beat : ℕ → Beat τ) (n : ℕ) : Bool :=
  (checkStuck dieOnStuckTimeout (stuckSince dieOnStuckTimeout beat n) (beat n)).2

/-- A run of stuck beats may begin at beat `m`: it is the first beat, or the one before it was not
stuck, or was one with a call. -/
def Fresh (T : τ) (beat : ℕ → Beat τ) (m : ℕ) : Prop :=
  ∀ k, m = k + 1 → (beat k).stuck = false ∨ calls T beat k = true

/-- The beats from `m` on, up to `n` and without it, are all stuck and without a call, and `m` is
where this began. -/
structure Streak (T : τ) (beat : ℕ → Beat τ) (m n : ℕ) : Prop where
  fresh : Fresh T beat m
  stuck : ∀ i, m ≤ i → i < n → (beat i).stuck = true
  quiet : ∀ i, m ≤ i → i < n → calls T beat i = false

variable {T : τ} {beat : ℕ → Beat τ} {m m' n : ℕ}

theorem Streak.not_fresh (h : Streak T beat m n) (hm : m < m') (hm' : m' ≤ n) :
    ¬ Fresh T beat m' := by
  intro hfresh
  obtain ⟨k, rfl⟩ : ∃ k, m' = k + 1 := ⟨m' - 1, by omega⟩
  -- the beat before is in the streak
  rcases hfresh k rfl with hs | hc
  · rw [h.stuck k (by omega) (by omega)] at hs
    cases hs
  · rw [h.quiet k (by omega) (by omega)] at hc
    cases hc

theorem Streak.unique (h : Streak T beat m n) (h' : Streak T beat m' n) (hm : m < n)
    (hm' : m' < n) : m = m' := by
  have le : ∀ {a b}, Streak T beat a n → Streak T beat b n → b < n → b ≤ a := by
    intro a b ha hb hbn
    by_contra hlt
    exact ha.not_fresh (Nat.lt_of_not_le hlt) (Nat.le_of_lt hbn) hb.fresh
  exact Nat.le_antisymm (le h' h hm) (le h h' hm')

/-! ## One beat -/

theorem checkStuck_quiet (hT : T ≠ 0) {since : Option τ} {b : Beat τ} (hb : b.stuck = false) :
    checkStuck T since b = (none, false) := by
  unfold checkStuck
  rw [if_neg hT, hb]
  rfl

theorem checkStuck_first (hT : T ≠ 0) {b : Beat τ} (hb : b.stuck = true) :
    checkStuck T none b = (some b.now, false) := by
  unfold checkStuck
  rw [if_neg hT, hb]
  rfl

theorem checkStuck_due (hT : T ≠ 0) {t : τ} {b : Beat τ} (hb : b.stuck = true)
    (h : T ≤ b.now - t) : checkStuck T (some t) b = (none, true) := by
  unfold checkStuck
  rw [if_neg hT, hb]
  show (if T ≤ b.now - t then _ else _) = _
  rw [if_pos h]

theorem checkStuck_early (hT : T ≠ 0) {t : τ} {b : Beat τ} (hb : b.stuck = true)
    (h : ¬ T ≤ b.now - t) : checkStuck T (some t) b = (some t, false) := by
  unfold checkStuck
  rw [if_neg hT, hb]
  show (if T ≤ b.now - t then _ else _) = _
  rw [if_neg h]

theorem stuckSince_succ : stuckSince T beat (n + 1) =
    (checkStuck T (stuckSince T beat n) (beat n)).1 := rfl

theorem calls_eq : calls T beat n = (checkStuck T (stuckSince T beat n) (beat n)).2 := rfl

theorem stuck_of_calls (hT : T ≠ 0) (h : calls T beat n = true) : (beat n).stuck = true := by
  by_contra hs
  rw [calls_eq, checkStuck_quiet hT (Bool.eq_false_iff.2 hs)] at h
  cases h

/-! ## The timestamp -/

theorem Streak.extend (h : Streak T beat m n) (hs : (beat n).stuck = true)
    (hc : calls T beat n = false) : Streak T beat m (n + 1) where
  fresh := h.fresh
  stuck i hm hn := by
    rcases Nat.lt_succ_iff_lt_or_eq.1 hn with hn | rfl
    · exact h.stuck i hm hn
    · exact hs
  quiet i hm hn := by
    rcases Nat.lt_succ_iff_lt_or_eq.1 hn with hn | rfl
    · exact h.quiet i hm hn
    · exact hc

/-- **Timestamp.** It is unset where a run of stuck beats may begin; otherwise it is the clock at
the first beat of the streak. -/
theorem stuckSince_spec (hT : T ≠ 0) (n : ℕ) : (stuckSince T beat n = none ∧ Fresh T beat n) ∨
    ∃ m, m < n ∧ Streak T beat m n ∧ stuckSince T beat n = some (beat m).now := by
  induction n with
  | zero => exact .inl ⟨rfl, fun k hk => absurd hk (Nat.succ_ne_zero k).symm⟩
  | succ n ih =>
    have fresh : (beat n).stuck = false ∨ calls T beat n = true → Fresh T beat (n + 1) := by
      intro h k hk
      obtain rfl := Nat.succ.inj hk
      exact h
    rw [stuckSince_succ]
    by_cases hs : (beat n).stuck = true
    · rcases ih with ⟨hnone, hfresh⟩ | ⟨m, hm, hst, hsome⟩
      · -- the first stuck beat
        have hq : calls T beat n = false := by rw [calls_eq, hnone, checkStuck_first hT hs]
        rw [hnone, checkStuck_first hT hs]
        refine .inr ⟨n, Nat.lt_succ_self n, ⟨hfresh, fun i h1 h2 => ?_, fun i h1 h2 => ?_⟩, rfl⟩
        · rwa [Nat.le_antisymm (Nat.le_of_lt_succ h2) h1]
        · rwa [Nat.le_antisymm (Nat.le_of_lt_succ h2) h1]
      · by_cases hdue : T ≤ (beat n).now - (beat m).now
        · have hc : calls T beat n = true := by rw [calls_eq, hsome, checkStuck_due hT hs hdue]
          rw [hsome, checkStuck_due hT hs hdue]
          exact .inl ⟨rfl, fresh (.inr hc)⟩
        · have hq : calls T beat n = false := by
            rw [calls_eq, hsome, checkStuck_early hT hs hdue]
          rw [hsome, checkStuck_early hT hs hdue]
          exact .inr ⟨m, Nat.lt_succ_of_lt hm, hst.extend hs hq, rfl⟩
    · have hs : (beat n).stuck = false := Bool.eq_false_iff.2 hs
      rw [checkStuck_quiet hT hs]
      exact .inl ⟨rfl, fresh (.inl hs)⟩

/-! ## The result -/

/-- `_on_service_stuck` is called at the beats that are stuck and at which the streak is as old as
the timeout. -/
theorem calls_iff (hT : 0 < T) (n : ℕ) : calls T beat n = true ↔ (beat n).stuck = true ∧
    ∃ m, m ≤ n ∧ Streak T beat m n ∧ T ≤ (beat n).now - (beat m).now := by
  have hT0 : T ≠ 0 := ne_of_gt hT
  constructor
  · intro h
    have hs := stuck_of_calls hT0 h
    refine ⟨hs, ?_⟩
    rcases stuckSince_spec hT0 n with ⟨hnone, -⟩ | ⟨m, hm, hst, hsome⟩
    · rw [calls_eq, hnone, checkStuck_first hT0 hs] at h
      cases h
    · refine ⟨m, Nat.le_of_lt hm, hst, ?_⟩
      by_contra hdue
      rw [calls_eq, hsome, checkStuck_early hT0 hs hdue] at h
      cases h
  · rintro ⟨hs, m, hm, hst, hdue⟩
    have hlt : m < n := by
      rcases Nat.lt_or_eq_of_le hm with hlt | rfl
      · exact hlt
      · rw [sub_self] at hdue
        exact absurd hT (not_lt_of_ge hdue)
    rcases stuckSince_spec hT0 n with ⟨-, hfresh⟩ | ⟨m', hm', hst', hsome⟩
    · -- a streak that ends here cannot begin here
      exact absurd hfresh (hst.not_fresh hlt (Nat.le_refl n))
    · obtain rfl := hst.unique hst' hlt hm'
      rw [calls_eq, hsome, checkStuck_due hT0 hs hdue]

variable [IsOrderedAddMonoid τ]

/-- **Watchdog.** `_on_service_stuck` is called at a beat exactly if all the beats of an unbroken
run up to it have been stuck, the run having begun after the call before or after the last beat that
was not stuck, and the clock has advanced by the timeout since its first beat. So no call comes
within the timeout after a call, or after the beat that follows one that was not stuck. -/
theorem stuck_watchdog (hT : 0 < T) (hmono : ∀ n, (beat n).now ≤ (beat (n + 1)).now) :
    (∀ n, calls T beat n = true ↔ ∃ m, m ≤ n ∧ Fresh T beat m ∧
      (∀ i, m ≤ i → i ≤ n → (beat i).stuck = true) ∧
      (∀ i, m ≤ i → i < n → calls T beat i = false) ∧ T ≤ (beat n).now - (beat m).now) ∧
    (∀ m n, m < n → calls T beat m = true → calls T beat n = true →
      T ≤ (beat n).now - (beat m).now) ∧
    ∀ m n, m < n → (beat m).stuck = false → calls T beat n = true →
      T ≤ (beat n).now - (beat (m + 1)).now := by
  have hclock : ∀ {a b}, a ≤ b → (beat a).now ≤ (beat b).now :=
    fun h => monotone_nat_of_le_succ hmono h
  refine ⟨fun n => ?_, fun m n hmn hm hn => ?_, fun m n hmn hm hn => ?_⟩
  · rw [calls_iff hT]
    constructor
    · rintro ⟨hs, m, hm, hst, hdue⟩
      refine ⟨m, hm, hst.fresh, fun i h1 h2 => ?_, hst.quiet, hdue⟩
      rcases Nat.lt_or_eq_of_le h2 with h2 | rfl
      · exact hst.stuck i h1 h2
      · exact hs
    · rintro ⟨m, hm, hfresh, hall, hquiet, hdue⟩
      exact ⟨hall n hm (Nat.le_refl n), m, hm,
        ⟨hfresh, fun i h1 h2 => hall i h1 (Nat.le_of_lt h2), hquiet⟩, hdue⟩
  · -- the streak has begun after the call at `m`
    obtain ⟨-, a, -, hst, hdue⟩ := (calls_iff hT n).1 hn
    have hma : m < a := by
      by_contra hle
      rw [hst.quiet m (by omega) hmn] at hm
      cases hm
    exact le_trans hdue (sub_le_sub_left (hclock (Nat.le_of_lt hma)) _)
  · obtain ⟨-, a, -, hst, hdue⟩ := (calls_iff hT n).1 hn
    have hma : m < a := by
      by_contra hle
      rw [hst.stuck m (by omega) hmn] at hm
      cases hm
    exact le_trans hdue (sub_le_sub_left (hclock hma) _)

end Watchdog

/-- A beat a second, all stuck but the second: with a timeout of two seconds the call comes at the
fifth beat, and then at the eighth. -/
def beats (n : ℕ) : Beat ℤ := ⟨n ≠ 1, n⟩

theorem beats_calls : (List.range 8).filter (calls 2 beats) = [4, 7] ∧
    (2 : ℤ) ≤ (beats 7).now - (beats 4).now := by
  have h := @stuck_watchdog ℤ _ _ 2 beats _ (by decide) fun n => by
    show (n : ℤ) ≤ ((n + 1 : ℕ) : ℤ)
    omega
  exact ⟨by decide, h.2.1 4 7 (by decide) (by decide) (by decide)⟩

end GenericBackgroundService
