import Mathlib.Data.List.Nodup
import Mathlib.Logic.Function.Iterate
import Mathlib.Tactic.Common

/-!
# Repeated batches

A queue is worked off in batches: each takes the first `n` elements, removes the good ones and
leaves the bad ones in their places. A good element is reached, sooner or later, exactly if fewer
than `n` bad elements stand before it (`served_iff`); and then every good element is gone after as
many batches as the queue is long (`iterate_batch_iff`).
-/

namespace Batch

variable {α : Type*} (good : α → Bool)

/-- One batch: of the first `n` elements the good ones go. -/
def batch : ℕ → List α → List α
  | 0, l => l
  | _ + 1, [] => []
  | n + 1, x :: l => if good x then batch n l else x :: batch n l

/-- Fewer than `n` bad elements stand before every good one. -/
def Served : ℕ → List α → Prop
  | _, [] => True
  | n, x :: l => if good x then 0 < n ∧ Served n l else Served (n - 1) l

instance : ∀ (n : ℕ) (l : List α), Decidable (Served good n l)
  | _, [] => inferInstanceAs (Decidable True)
  | n, x :: l =>
    have := instDecidableServed n l
    have := instDecidableServed (n - 1) l
    inferInstanceAs (Decidable (if good x then 0 < n ∧ Served good n l else Served good (n - 1) l))

variable {good} {l : List α} {x : α} {n : ℕ}

theorem batch_eq : batch good n l = (l.take n).filter (!good ·) ++ l.drop n := by
  induction n generalizing l with
  | zero => rfl
  | succ n ih =>
    rcases l with _ | ⟨x, l⟩
    · rfl
    · unfold batch
      rw [ih, List.take_succ_cons, List.drop_succ_cons, List.filter_cons]
      cases good x <;> simp

/-- A batch removes the good elements that it has taken, by their keys. -/
theorem batch_eq_filter {κ : Type*} [DecidableEq κ] {key : α → κ} (h : (l.map key).Nodup) :
    batch good n l = l.filter fun x => decide (key x ∉ ((l.take n).filter good).map key) := by
  have hinj := List.inj_on_of_nodup_map h
  have hsplit : l.filter (fun x => decide (key x ∉ ((l.take n).filter good).map key)) =
      (l.take n ++ l.drop n).filter
        fun x => decide (key x ∉ ((l.take n).filter good).map key) := by
    rw [List.take_append_drop]
  rw [batch_eq, hsplit, List.filter_append]
  rw [← List.take_append_drop n l, List.map_append, List.nodup_append] at h
  congr 1
  · refine List.filter_congr fun x hx => ?_
    have hmem : key x ∈ ((l.take n).filter good).map key ↔ good x = true := by
      constructor
      · intro hk
        obtain ⟨y, hy, heq⟩ := List.mem_map.1 hk
        obtain ⟨hy, hg⟩ := List.mem_filter.1 hy
        rwa [← hinj (List.mem_of_mem_take hy) (List.mem_of_mem_take hx) heq]
      · exact fun hg => List.mem_map_of_mem (List.mem_filter.2 ⟨hx, hg⟩)
    rw [Bool.eq_iff_iff, decide_eq_true_iff, hmem]
    simp
  · refine (List.filter_eq_self.2 fun x hx => ?_).symm
    rw [decide_eq_true_eq]
    intro hk
    obtain ⟨y, hy, heq⟩ := List.mem_map.1 hk
    exact h.2.2 _ (List.mem_map_of_mem (List.mem_of_mem_filter hy)) _
      (List.mem_map_of_mem hx) heq

theorem served_cons_good (h : good x = true) :
    Served good n (x :: l) ↔ 0 < n ∧ Served good n l := by
  show (if good x then _ else _) ↔ _
  rw [if_pos h]

theorem served_cons_bad (h : ¬ good x = true) :
    Served good n (x :: l) ↔ Served good (n - 1) l := by
  show (if good x then _ else _) ↔ _
  rw [if_neg h]

theorem served_iff : Served good n l ↔ ∀ pre x post, l = pre ++ x :: post → good x = true →
    pre.countP (!good ·) < n := by
  induction l generalizing n with
  | nil =>
    refine ⟨fun _ pre x post h => ?_, fun _ => trivial⟩
    simp at h
  | cons y l ih =>
    by_cases hy : good y = true
    · rw [served_cons_good hy, ih]
      constructor
      · rintro ⟨hn, h⟩ pre x post heq hx
        rcases pre with _ | ⟨z, pre⟩
        · simpa using hn
        · obtain ⟨rfl, htail⟩ := List.cons.inj heq
          simpa [List.countP_cons, hy] using h pre x post htail hx
      · intro h
        refine ⟨by simpa using h [] y l rfl hy, fun pre x post heq hx => ?_⟩
        simpa [List.countP_cons, hy] using h (y :: pre) x post (by rw [heq]; rfl) hx
    · rw [served_cons_bad hy, ih]
      constructor
      · rintro h pre x post heq hx
        rcases pre with _ | ⟨z, pre⟩
        · obtain ⟨rfl, -⟩ := List.cons.inj heq
          exact absurd hx hy
        · obtain ⟨rfl, htail⟩ := List.cons.inj heq
          have := h pre x post htail hx
          simp only [List.countP_cons, hy, Bool.not_false, if_true]
          omega
      · intro h pre x post heq hx
        have := h (y :: pre) x post (by rw [heq]; rfl) hx
        simp only [List.countP_cons, hy, Bool.not_false, if_true] at this
        omega

/-! ## One batch -/

theorem served_batch {m : ℕ} (hm : m ≤ n) :
    Served good n (batch good m l) ↔ Served good n l := by
  induction l generalizing m n with
  | nil => cases m <;> rfl
  | cons x l ih =>
    rcases m with _ | m
    · rfl
    by_cases hx : good x = true
    · have hb : batch good (m + 1) (x :: l) = batch good m l := if_pos hx
      rw [hb, served_cons_good hx, ih (by omega)]
      exact ⟨fun h => ⟨by omega, h⟩, fun h => h.2⟩
    · have hb : batch good (m + 1) (x :: l) = x :: batch good m l := if_neg hx
      rw [hb, served_cons_bad hx, served_cons_bad hx, ih (by omega)]

theorem served_of_bad (h : ∀ x ∈ l, good x = false) : Served good n l := by
  induction l generalizing n with
  | nil => trivial
  | cons x l ih =>
    rw [served_cons_bad (by simp [h x])]
    exact ih fun y hy => h y (List.mem_cons_of_mem _ hy)

theorem countP_batch_le : (batch good n l).countP good ≤ l.countP good := by
  have h : (batch good n l).Sublist l := by
    rw [batch_eq]
    conv_rhs => rw [← List.take_append_drop n l]
    exact List.filter_sublist.append (List.Sublist.refl _)
  exact h.countP_le

/-- While good elements are served, each batch removes one of them. -/
theorem countP_batch_lt (hs : Served good n l) (hg : 0 < l.countP good) :
    (batch good n l).countP good < l.countP good := by
  induction l generalizing n with
  | nil => simp at hg
  | cons x l ih =>
    by_cases hx : good x = true
    · obtain ⟨hn, -⟩ := (served_cons_good hx).1 hs
      obtain ⟨n, rfl⟩ : ∃ m, n = m + 1 := ⟨n - 1, by omega⟩
      have hb : batch good (n + 1) (x :: l) = batch good n l := if_pos hx
      have hle : (batch good n l).countP good ≤ l.countP good := countP_batch_le
      rw [hb, List.countP_cons_of_pos hx]
      omega
    · rw [served_cons_bad hx] at hs
      rw [List.countP_cons_of_neg hx] at hg ⊢
      have hlt := ih hs hg
      rcases n with _ | n
      · -- no good element is served by empty batches
        exact absurd (ih hs hg) (Nat.lt_irrefl _)
      · have hb : batch good (n + 1) (x :: l) = x :: batch good n l := if_neg hx
        rw [hb, List.countP_cons_of_neg hx]
        simpa using hlt

/-! ## All batches -/

theorem served_iterate (k : ℕ) : Served good n ((batch good n)^[k] l) ↔ Served good n l := by
  induction k generalizing l with
  | zero => rfl
  | succ k ih => rw [Function.iterate_succ_apply, ih, served_batch (Nat.le_refl n)]

theorem mem_of_mem_batch (h : x ∈ batch good n l) : x ∈ l := by
  rw [batch_eq, List.mem_append] at h
  rcases h with h | h
  · exact List.mem_of_mem_take (List.mem_of_mem_filter h)
  · exact List.mem_of_mem_drop h

theorem mem_of_mem_iterate {k : ℕ} (h : x ∈ (batch good n)^[k] l) : x ∈ l := by
  induction k generalizing l with
  | zero => exact h
  | succ k ih => exact mem_of_mem_batch (ih h)

theorem countP_iterate (hs : Served good n l) (k : ℕ) :
    ((batch good n)^[k] l).countP good ≤ l.countP good - k := by
  induction k generalizing l with
  | zero => simp
  | succ k ih =>
    rw [Function.iterate_succ_apply]
    have h := ih ((served_batch (Nat.le_refl n)).2 hs)
    rcases Nat.eq_zero_or_pos (l.countP good) with h0 | h0
    · have hle : (batch good n l).countP good ≤ l.countP good := countP_batch_le
      omega
    · have := countP_batch_lt hs h0
      omega

/-- **Convergence.** After as many batches as the queue is long, every good element is gone exactly
if fewer than `n` bad ones stood before each. -/
theorem iterate_batch_iff {k : ℕ} (hk : l.length ≤ k) :
    (∀ x ∈ (batch good n)^[k] l, good x = false) ↔ Served good n l := by
  constructor
  · intro h
    exact (served_iterate k).1 (served_of_bad h)
  · intro hs x hx
    have h1 := countP_iterate hs k
    have h2 : l.countP good ≤ l.length := List.countP_le_length
    have h0 : ((batch good n)^[k] l).countP good = 0 := by omega
    exact Bool.eq_false_iff.2 (List.countP_eq_zero.1 h0 x hx)

end Batch
