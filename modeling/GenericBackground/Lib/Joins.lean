import Mathlib.Algebra.Order.Group.Defs
import Mathlib.Tactic.Abel
import Mathlib.Tactic.GCongr

/-!
# Joining threads with timeouts

A thread that waits for other threads, on a clock. Each of them ends at some time, or never; a join
with timeout `T` that begins at `c` returns when the thread has ended or at `c + T`. A loop may join
the threads one after the other, each with the full timeout (`joinAll`), or all of them up to one
deadline (`joinUntil`).

The first loop may take as long as there are threads, but if all of them end within the timeout of
the first join, no join times out and the loop is over by then (`joinAll_in_time`).
-/

namespace Joins

variable {R : Type*} [AddCommGroup R] [LinearOrder R] [IsOrderedAddMonoid R]

/-- The thread, which ends at `e`, has ended by `c`. -/
def ended (e : Option R) (c : R) : Bool := e.any fun t => t ≤ c

/-- When `join(T)` returns that begins at `c`. -/
def join (T : R) (e : Option R) (c : R) : R :=
  match e with
  | some t => min (max c t) (c + T)
  | none => c + T

/-- One join after the other, each with timeout `T`. -/
def joinAll (T : R) : List (Option R) → R → R
  | [], c => c
  | e :: es, c => joinAll T es (join T e c)

/-- How many of these joins return while the thread is still alive. -/
def timeouts (T : R) : List (Option R) → R → ℕ
  | [], _ => 0
  | e :: es, c => (if ended e (join T e c) then 0 else 1) + timeouts T es (join T e c)

/-- One join after the other until the deadline. -/
def joinUntil (deadline : R) : List (Option R) → R → R
  | [], c => c
  | e :: es, c =>
    if deadline - c ≤ 0 then c
    else joinUntil deadline es (if ended e c then c else join (deadline - c) e c)

variable {T c d : R} {e : Option R} {es : List (Option R)}

omit [IsOrderedAddMonoid R] in
theorem ended_iff : ended e c = true ↔ ∃ t, e = some t ∧ t ≤ c := by
  cases e <;> simp [ended]

omit [IsOrderedAddMonoid R] in
theorem ended_mono (h : ended e c = true) (hcd : c ≤ d) : ended e d = true := by
  obtain ⟨t, rfl, ht⟩ := ended_iff.1 h
  exact ended_iff.2 ⟨t, rfl, ht.trans hcd⟩

theorem le_join (e : Option R) (c : R) (hT : 0 ≤ T) : c ≤ join T e c := by
  cases e with
  | none => exact le_add_of_nonneg_right hT
  | some t => exact le_min (le_max_left c t) (le_add_of_nonneg_right hT)

omit [IsOrderedAddMonoid R] in
theorem join_le (T : R) (e : Option R) (c : R) : join T e c ≤ c + T := by
  cases e with
  | none => exact le_refl _
  | some t => exact min_le_right _ _

omit [IsOrderedAddMonoid R] in
theorem join_in_time (h : ended e d = true) (hcd : c ≤ d) (hd : d ≤ c + T) :
    join T e c ≤ d ∧ ended e (join T e c) = true := by
  obtain ⟨t, rfl, ht⟩ := ended_iff.1 h
  have hjoin : join T (some t) c = max c t := min_eq_left ((max_le hcd ht).trans hd)
  rw [hjoin]
  exact ⟨max_le hcd ht, ended_iff.2 ⟨t, rfl, le_max_right c t⟩⟩

theorem le_joinAll (hT : 0 ≤ T) : c ≤ joinAll T es c := by
  induction es generalizing c with
  | nil => exact le_refl c
  | cons e es ih => exact (le_join e c hT).trans ih

theorem joinAll_le (T : R) (es : List (Option R)) (c : R) :
    joinAll T es c ≤ c + es.length • T := by
  induction es generalizing c with
  | nil => simp [joinAll]
  | cons e es ih =>
    calc joinAll T es (join T e c) ≤ join T e c + es.length • T := ih _
      _ ≤ (c + T) + es.length • T := by gcongr; exact join_le T e c
      _ = c + (es.length + 1) • T := by rw [succ_nsmul]; abel

/-- **In time.** If all threads end by `d`, within the timeout of the first join, then no join times
out, the loop is over by `d`, and all threads have ended by then. -/
theorem joinAll_in_time (es : List (Option R)) (hT : 0 ≤ T) (hcd : c ≤ d) (hd : d ≤ c + T)
    (h : ∀ e ∈ es, ended e d = true) :
    timeouts T es c = 0 ∧ joinAll T es c ≤ d ∧ ∀ e ∈ es, ended e (joinAll T es c) = true := by
  induction es generalizing c with
  | nil => exact ⟨rfl, hcd, by simp⟩
  | cons e es ih =>
    obtain ⟨hj, he⟩ := join_in_time (h e List.mem_cons_self) hcd hd
    obtain ⟨hnone, hle, hall⟩ := ih hj (hd.trans (by gcongr; exact le_join e c hT))
      fun e he => h e (List.mem_cons_of_mem _ he)
    refine ⟨?_, hle, fun e' he' => ?_⟩
    · rw [timeouts, if_pos he, hnone]
    rcases List.mem_cons.1 he' with rfl | he'
    · exact ended_mono he (le_joinAll hT)
    · exact hall e' he'

theorem joinUntil_within (es : List (Option R)) (hcd : c ≤ d) :
    c ≤ joinUntil d es c ∧ joinUntil d es c ≤ d := by
  induction es generalizing c with
  | nil => exact ⟨le_refl c, hcd⟩
  | cons e es ih =>
    unfold joinUntil
    split_ifs with hrem hend
    · exact ⟨le_refl c, hcd⟩
    · exact ih hcd
    · have hc := le_join e c (sub_nonneg.2 hcd)
      have hd : join (d - c) e c ≤ d := (join_le (d - c) e c).trans_eq (add_sub_cancel c d)
      exact ⟨hc.trans (ih hd).1, (ih hd).2⟩

theorem joinUntil_ended (hlt : joinUntil d es c < d) :
    ∀ e ∈ es, ended e (joinUntil d es c) = true := by
  induction es generalizing c with
  | nil => simp
  | cons e es ih =>
    unfold joinUntil at hlt ⊢
    split_ifs at hlt ⊢ with hrem hend
    · exact absurd (sub_nonpos.1 hrem) (not_le.2 hlt)
    · intro e' he'
      rcases List.mem_cons.1 he' with rfl | he'
      · exact ended_mono hend
          (joinUntil_within es (le_of_lt (not_le.1 fun h => hrem (sub_nonpos.2 h)))).1
      · exact ih hlt e' he'
    · have hcd : c < d := not_le.1 fun h => hrem (sub_nonpos.2 h)
      have hd : join (d - c) e c ≤ d := (join_le (d - c) e c).trans_eq (add_sub_cancel c d)
      have hin := joinUntil_within es hd
      intro e' he'
      rcases List.mem_cons.1 he' with rfl | he'
      · -- its join has not timed out
        have hjoin : join (d - c) e' c < c + (d - c) := by
          rw [add_sub_cancel]
          exact hin.1.trans_lt hlt
        cases e' with
        | none => exact absurd hjoin (lt_irrefl _)
        | some t =>
          have hmax : join (d - c) (some t) c = max c t :=
            min_eq_left (le_of_not_ge fun h => absurd hjoin (not_lt.2 (le_min h (le_refl _))))
          refine ended_iff.2 ⟨t, rfl, le_trans ?_ hin.1⟩
          rw [hmax]
          exact le_max_right c t
      · exact ih hlt e' he'

end Joins
