import Mathlib.Data.List.Lex
import Mathlib.Data.Nat.Digits.Defs

/-!
# The order of texts

A text is a list of letters, and texts compare letter by letter from the left. A text that is joined
from components compares as the list of its components, if the separator comes before every letter
(`intercalate_lt_iff`). Numerals of one length compare as their values
(`Digits.value_lt_iff`); numerals of different lengths need not.
-/

namespace TextOrder

variable {α β : Type*} [LinearOrder α]

/-! ## Joined texts -/

theorem append_sep_lt_iff {sep : α} {a b x y : List α} (ha : ∀ c ∈ a, sep < c)
    (hb : ∀ c ∈ b, sep < c) : a ++ sep :: x < b ++ sep :: y ↔ a < b ∨ a = b ∧ x < y := by
  induction a generalizing b with
  | nil =>
    cases b with
    | nil => simp
    | cons d b => simp [List.cons_lt_cons_iff, hb d List.mem_cons_self]
  | cons c a ih =>
    have hc := ha c List.mem_cons_self
    cases b with
    | nil => simp [List.cons_lt_cons_iff, not_lt_of_gt hc, ne_of_gt hc]
    | cons d b =>
      have ih := ih (b := b) (fun e he => ha e (List.mem_cons_of_mem _ he))
        (fun e he => hb e (List.mem_cons_of_mem _ he))
      simp only [List.cons_append, List.cons_lt_cons_iff, ih, List.cons.injEq]
      tauto

/-- Texts of equally many components compare as the lists of their components. -/
theorem intercalate_lt_iff {sep : α} {xs ys : List (List α)} (h : xs.length = ys.length)
    (hx : ∀ a ∈ xs, ∀ c ∈ a, sep < c) (hy : ∀ a ∈ ys, ∀ c ∈ a, sep < c) :
    [sep].intercalate xs < [sep].intercalate ys ↔ xs < ys := by
  induction xs generalizing ys with
  | nil =>
    obtain rfl := List.length_eq_zero_iff.1 h.symm
    simp
  | cons a xs ih =>
    cases ys with
    | nil => cases h
    | cons b ys =>
      have h := Nat.succ.inj h
      have ih := ih h (fun c hc => hx c (List.mem_cons_of_mem _ hc))
        (fun c hc => hy c (List.mem_cons_of_mem _ hc))
      have ha := hx a List.mem_cons_self
      have hb := hy b List.mem_cons_self
      cases xs with
      | nil =>
        obtain rfl := List.length_eq_zero_iff.1 h.symm
        simp [List.cons_lt_cons_iff]
      | cons a' xs =>
        cases ys with
        | nil => cases h
        | cons b' ys =>
          rw [List.intercalate_cons_cons, List.intercalate_cons_cons, List.append_assoc,
            List.append_assoc, List.singleton_append, List.singleton_append,
            append_sep_lt_iff ha hb, ih, ← List.cons_lt_cons_iff]

/-! ## Numerals -/

def value (base : ℕ) (digit : β → ℕ) (l : List β) : ℕ := Nat.ofDigits base (l.map digit).reverse

theorem value_cons {base : ℕ} {digit : β → ℕ} (c : β) (l : List β) :
    value base digit (c :: l) = value base digit l + base ^ l.length * digit c := by
  unfold value
  rw [List.map_cons, List.reverse_cons, Nat.ofDigits_append, Nat.ofDigits_singleton,
    List.length_reverse, List.length_map]

/-- The letters that meet `p` are the digits of a base, in the order of their values. -/
structure Digits (p : α → Prop) (base : ℕ) (digit : α → ℕ) : Prop where
  one_lt : 1 < base
  lt_base : ∀ c, p c → digit c < base
  lt_iff : ∀ c d, p c → p d → (digit c < digit d ↔ c < d)

namespace Digits

variable {p : α → Prop} {base : ℕ} {digit : α → ℕ} (h : Digits p base digit)

include h

theorem eq_iff {c d : α} (hc : p c) (hd : p d) : digit c = digit d ↔ c = d := by
  refine ⟨fun heq => ?_, fun heq => by rw [heq]⟩
  rcases lt_trichotomy c d with hcd | hcd | hcd
  · have := (h.lt_iff c d hc hd).2 hcd
    omega
  · exact hcd
  · have := (h.lt_iff d c hd hc).2 hcd
    omega

theorem value_lt {l : List α} (hl : ∀ c ∈ l, p c) : value base digit l < base ^ l.length := by
  have hlt : ∀ n ∈ (l.map digit).reverse, n < base := by
    intro n hn
    obtain ⟨c, hc, rfl⟩ := List.mem_map.1 (List.mem_reverse.1 hn)
    exact h.lt_base c (hl c hc)
  simpa [value] using Nat.ofDigits_lt_base_pow_length h.one_lt hlt

theorem value_lt_iff {l l' : List α} (hlen : l.length = l'.length) (hl : ∀ c ∈ l, p c)
    (hl' : ∀ c ∈ l', p c) : value base digit l < value base digit l' ↔ l < l' := by
  induction l generalizing l' with
  | nil =>
    obtain rfl := List.length_eq_zero_iff.1 hlen.symm
    simp [value]
  | cons c l ih =>
    cases l' with
    | nil => cases hlen
    | cons d l' =>
      have hlen := Nat.succ.inj hlen
      have hc := hl c List.mem_cons_self
      have hd := hl' d List.mem_cons_self
      have hl : ∀ e ∈ l, p e := fun e he => hl e (List.mem_cons_of_mem _ he)
      have hl' : ∀ e ∈ l', p e := fun e he => hl' e (List.mem_cons_of_mem _ he)
      have hv := h.value_lt hl
      have hv' := h.value_lt hl'
      rw [value_cons, value_cons, List.cons_lt_cons_iff, ← ih hlen hl hl', ← h.lt_iff c d hc hd,
        ← h.eq_iff hc hd, hlen]
      rw [hlen] at hv
      generalize base ^ l'.length = b at *
      -- the first digit decides, unless it is the same
      rcases Nat.lt_trichotomy (digit c) (digit d) with hcd | hcd | hcd
      · have := Nat.mul_le_mul_left b (show digit c + 1 ≤ digit d from hcd)
        rw [Nat.mul_add, Nat.mul_one] at this
        omega
      · rw [hcd]
        omega
      · have := Nat.mul_le_mul_left b (show digit d + 1 ≤ digit c from hcd)
        rw [Nat.mul_add, Nat.mul_one] at this
        omega

theorem value_eq_iff {l l' : List α} (hlen : l.length = l'.length) (hl : ∀ c ∈ l, p c)
    (hl' : ∀ c ∈ l', p c) : value base digit l = value base digit l' ↔ l = l' := by
  refine ⟨fun heq => ?_, fun heq => by rw [heq]⟩
  rcases lt_trichotomy l l' with hlt | hlt | hlt
  · have := (h.value_lt_iff hlen hl hl').2 hlt
    omega
  · exact hlt
  · have := (h.value_lt_iff hlen.symm hl' hl).2 hlt
    omega

/-- Lists of numerals that have the same lengths, place by place, compare as the lists of their
values. -/
theorem map_value_lt_iff {xs ys : List (List α)}
    (hlen : xs.map List.length = ys.map List.length) (hx : ∀ l ∈ xs, ∀ c ∈ l, p c)
    (hy : ∀ l ∈ ys, ∀ c ∈ l, p c) :
    xs.map (value base digit) < ys.map (value base digit) ↔ xs < ys := by
  induction xs generalizing ys with
  | nil =>
    obtain rfl : ys = [] := List.map_eq_nil_iff.1 hlen.symm
    simp
  | cons l xs ih =>
    cases ys with
    | nil => cases hlen
    | cons l' ys =>
      obtain ⟨hl, hlen⟩ := List.cons.inj hlen
      have ih := ih hlen (fun k hk => hx k (List.mem_cons_of_mem _ hk))
        (fun k hk => hy k (List.mem_cons_of_mem _ hk))
      have hxl := hx l List.mem_cons_self
      have hyl := hy l' List.mem_cons_self
      rw [List.map_cons, List.map_cons, List.cons_lt_cons_iff, List.cons_lt_cons_iff, ih,
        h.value_lt_iff hl hxl hyl, h.value_eq_iff hl hxl hyl]

end Digits

/-! ## Sorted traversals -/

/-- What holds between the outputs of a traversal, in their order, if the inputs are sorted. -/
theorem pairwise_flatMap_iff {γ : Type*} {key : γ → α} {f : γ → List β} {R : β → β → Prop}
    {l : List γ} (hl : l.Pairwise fun v w => key v < key w) :
    (l.flatMap f).Pairwise R ↔ (∀ v ∈ l, (f v).Pairwise R) ∧
      ∀ v ∈ l, ∀ w ∈ l, key v < key w → ∀ x ∈ f v, ∀ y ∈ f w, R x y := by
  rw [List.pairwise_flatMap]
  refine and_congr_right fun _ => ⟨fun h => ?_, fun h => ?_⟩
  · have hf : l.Pairwise fun v w => key v < key w → ∀ x ∈ f v, ∀ y ∈ f w, R x y := by
      refine h.imp ?_
      intro v w hvw _
      exact hvw
    have hb : l.Pairwise (flip fun v w => key v < key w → ∀ x ∈ f v, ∀ y ∈ f w, R x y) := by
      refine hl.imp ?_
      intro v w hvw hwv
      exact absurd hwv (not_lt_of_gt hvw)
    exact hf.forall_of_forall_of_flip (fun v _ hv => absurd hv (lt_irrefl _)) hb
  · exact hl.imp_of_mem fun hv hw hvw => h _ hv _ hw hvw

end TextOrder
