import Mathlib.Data.List.Sort

/-!
# Ordered selections

`SELECT … WHERE p ORDER BY r LIMIT n` on a list of rows. The sort is stable, so rows that tie come
in the order of the list: a statement about every list is a statement about every way to break
ties.
-/

namespace Query

variable {α : Type*} (r : α → α → Prop) [DecidableRel r] (p : α → Bool)

/-- The rows with `p`, ordered by `r`. -/
def select (l : List α) : List α := (l.filter p).insertionSort r

def first (l : List α) : Option α := (select r p l).head?

variable {r p} {l : List α} {x y : α} {n : ℕ}

theorem mem_select : x ∈ select r p l ↔ x ∈ l ∧ p x = true := by
  unfold select
  rw [List.mem_insertionSort, List.mem_filter]

theorem mem_of_mem_take (h : x ∈ (select r p l).take n) : x ∈ l ∧ p x = true :=
  mem_select.1 (List.mem_of_mem_take h)

theorem take_ne_nil_iff (hn : 0 < n) : (select r p l).take n ≠ [] ↔ ∃ x ∈ l, p x = true := by
  have h0 : n ≠ 0 := Nat.pos_iff_ne_zero.1 hn
  rw [Ne, List.take_eq_nil_iff, or_iff_right h0, List.eq_nil_iff_forall_not_mem]
  push Not
  exact ⟨fun ⟨x, hx⟩ => ⟨x, mem_select.1 hx⟩, fun ⟨x, hx⟩ => ⟨x, mem_select.2 hx⟩⟩

theorem first_mem (h : first r p l = some x) : x ∈ l ∧ p x = true :=
  mem_select.1 (List.mem_of_mem_head? h)

theorem filter_orderedInsert [IsTrans α r] (q : α → Bool) (hs : l.Pairwise r) :
    (l.orderedInsert r x).filter q =
      if q x then (l.filter q).orderedInsert r x else l.filter q := by
  induction l with
  | nil => simp [List.filter_cons]
  | cons b l ih =>
    obtain ⟨hb, hl⟩ := List.pairwise_cons.1 hs
    have ih := ih hl
    by_cases hx : r x b
    · have hall : ∀ c ∈ (b :: l).filter q, r x c := by
        intro c hc
        rcases List.mem_cons.1 (List.mem_of_mem_filter hc) with rfl | hc
        · exact hx
        · exact Trans.trans hx (hb c hc)
      rw [List.orderedInsert_cons_of_le _ _ hx, List.filter_cons]
      split_ifs
      · rcases h : (b :: l).filter q with _ | ⟨c, cs⟩
        · rfl
        · rw [List.orderedInsert_cons_of_le]
          exact hall c (h ▸ List.mem_cons_self)
      · rfl
    · rw [List.orderedInsert_of_not_le _ _ hx, List.filter_cons, List.filter_cons, ih]
      split_ifs <;> simp [hx]

/-- To select fewer rows is to leave out the others. -/
theorem filter_select [Std.Total r] [IsTrans α r] (q : α → Bool) :
    (select r p l).filter q = select r q (l.filter p) := by
  unfold select
  induction l.filter p with
  | nil => rfl
  | cons x l ih =>
    rw [List.insertionSort_cons, filter_orderedInsert q (List.pairwise_insertionSort r l), ih,
      List.filter_cons]
    split_ifs <;> simp

theorem first_le [Std.Total r] [IsTrans α r] (hf : first r p l = some x) (hy : y ∈ l)
    (hp : p y = true) : x = y ∨ r x y := by
  have hs : (select r p l).Pairwise r := List.pairwise_insertionSort r _
  have hm : y ∈ select r p l := mem_select.2 ⟨hy, hp⟩
  unfold first at hf
  cases h : select r p l with
  | nil => rw [h] at hf; cases hf
  | cons z zs =>
    rw [h] at hf hs hm
    obtain rfl : z = x := Option.some.inj hf
    rcases List.mem_cons.1 hm with rfl | hm
    · exact .inl rfl
    · exact .inr ((List.pairwise_cons.1 hs).1 y hm)

omit [DecidableRel r] in
/-- What stands before an element of a sorted list that is not among the first `n`. -/
theorem take_before (hl : l.Pairwise r) (hx : x ∈ l) (hn : x ∉ l.take n) :
    (l.take n).length = n ∧ ∀ y ∈ l.take n, r y x := by
  rw [← List.take_append_drop n l] at hl hx
  have hdrop := (List.mem_append.1 hx).resolve_left hn
  refine ⟨List.length_take_of_le ?_, fun y hy => (List.pairwise_append.1 hl).2.2 y hy x hdrop⟩
  have := List.length_pos_of_mem hdrop
  rw [List.length_drop] at this
  omega

end Query
