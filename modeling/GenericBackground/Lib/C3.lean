import Mathlib.Algebra.GroupWithZero.Nat
import Mathlib.Data.List.Infix
import Mathlib.Data.List.Nodup
import Mathlib.Data.List.Perm.Subperm

/-!
# The C3 linearisation

`merge` takes lists of classes and repeatedly removes a head that stands in no tail, the first one
in the order of the lists. It fails when every head stands in some tail.

`merge_eq` says when the result is a given order without repetitions: the lists are sublists of the
order and cover it (`Covers`), each element and each pair of neighbours occurring in one of them.
-/

namespace C3

variable {α : Type*}

/-- Every element of `l` and every pair of neighbours in `l` occurs in one of the lists. -/
structure Covers (ls : List (List α)) (l : List α) : Prop where
  mem : ∀ x ∈ l, ∃ k ∈ ls, x ∈ k
  pair : ∀ x y, [x, y] <:+: l → ∃ k ∈ ls, [x, y].Sublist k

variable {ls : List (List α)} {l k : List α} {c x y : α}

/-! ## Orders that lists cover -/

theorem Covers.mem_tail (h : Covers ls (c :: l)) (hx : x ∈ l) : ∃ k ∈ ls, x ∈ k.tail := by
  obtain ⟨pre, post, rfl⟩ := List.append_of_mem hx
  have hpair : ∃ y, [y, x] <:+: c :: (pre ++ x :: post) := by
    rcases List.eq_nil_or_concat pre with rfl | ⟨pre, y, rfl⟩
    · exact ⟨c, [], post, by simp⟩
    · exact ⟨y, c :: pre, post, by simp⟩
  obtain ⟨y, hy⟩ := hpair
  obtain ⟨k, hk, hs⟩ := h.pair y x hy
  refine ⟨k, hk, ?_⟩
  have := hs.tail
  exact this.subset (by simp)

theorem Covers.length_le (h : Covers ls l) (hnd : l.Nodup) :
    l.length ≤ (ls.map List.length).sum := by
  have hsub : l ⊆ ls.flatten := by
    intro x hx
    obtain ⟨k, hk, hxk⟩ := h.mem x hx
    exact List.mem_flatten.2 ⟨k, hk, hxk⟩
  have := (List.subperm_of_subset hnd hsub).length_le
  rwa [List.length_flatten] at this

/-- Neighbours in two lists that share an element are neighbours in one of them. -/
theorem pair_glue : ∀ {m : List α}, [x, y] <:+: m ++ c :: l →
    [x, y] <:+: m ++ [c] ∨ [x, y] <:+: c :: l := by
  intro m
  induction m with
  | nil => exact .inr
  | cons z m ih =>
    intro h
    rcases List.infix_cons_iff.1 h with h | h
    · -- the pair begins with `z`, and its second element comes next
      refine .inl (List.IsPrefix.isInfix ?_)
      cases m with
      | nil => simpa [List.cons_prefix_cons] using h
      | cons w m => simpa [List.cons_prefix_cons] using h
    · exact (ih h).imp (·.trans (List.suffix_cons z _).isInfix) id

/-- Two lists cover the order that they make up by sharing an element. -/
theorem covers_glue {m : List α} (h1 : m ++ [c] ∈ ls) (h2 : c :: l ∈ ls) :
    Covers ls (m ++ c :: l) := by
  refine ⟨fun x hx => ?_, fun x y hxy => ?_⟩
  · rcases List.mem_append.1 hx with hx | hx
    · exact ⟨_, h1, List.mem_append_left _ hx⟩
    · exact ⟨_, h2, hx⟩
  · rcases pair_glue hxy with h | h
    · exact ⟨_, h1, h.sublist⟩
    · exact ⟨_, h2, h.sublist⟩

/-! ## The merge -/

variable [DecidableEq α]

/-- The first head that stands in no tail. -/
def candidate (ls : List (List α)) : Option α :=
  (ls.filterMap List.head?).find? fun c => ls.all fun l => c ∉ l.tail

/-- The lists without the head `c`. -/
def dropHead (c : α) (ls : List (List α)) : List (List α) :=
  ls.map fun l => if l.head? = some c then l.tail else l

/-- The merge in at most `n` rounds. -/
def mergeWithin : ℕ → List (List α) → Option (List α)
  | 0, ls => if ls.all List.isEmpty then some [] else none
  | n + 1, ls =>
    if ls.all List.isEmpty then some []
    else (candidate ls).bind fun c => (mergeWithin n (dropHead c ls)).map (c :: ·)

/-- The C3 merge. Each round removes an element, so the rounds are enough. -/
def merge (ls : List (List α)) : Option (List α) := mergeWithin (ls.map List.length).sum ls

theorem sublist_dropHead (h : k.Sublist (c :: l)) :
    (if k.head? = some c then k.tail else k).Sublist l := by
  cases k with
  | nil => simp
  | cons x k =>
    by_cases hx : x = c
    · subst hx
      simpa using h
    · have hk : (x :: k).Sublist l := (List.sublist_cons_iff.1 h).resolve_right (by simp [hx])
      simpa [hx] using hk

theorem mem_dropHead (hx : x ∈ k) (hne : x ≠ c) : x ∈ if k.head? = some c then k.tail else k := by
  cases k with
  | nil => cases hx
  | cons y k =>
    by_cases hy : y = c
    · simpa [hy, hne] using hx
    · simpa [hy] using hx

theorem pair_dropHead (h : [x, y].Sublist k) (hne : x ≠ c) :
    [x, y].Sublist (if k.head? = some c then k.tail else k) := by
  cases k with
  | nil => cases h
  | cons z k =>
    by_cases hz : z = c
    · subst hz
      simpa using (List.sublist_cons_iff.1 h).resolve_right (by simp [hne])
    · simpa [hz] using h

theorem Covers.dropHead (h : Covers ls (c :: l)) (hnd : (c :: l).Nodup) :
    Covers (dropHead c ls) l := by
  have hc : c ∉ l := (List.nodup_cons.1 hnd).1
  refine ⟨fun x hx => ?_, fun x y hxy => ?_⟩
  · obtain ⟨k, hk, hxk⟩ := h.mem x (List.mem_cons_of_mem _ hx)
    refine ⟨_, List.mem_map_of_mem hk, mem_dropHead hxk ?_⟩
    rintro rfl
    exact hc hx
  · obtain ⟨k, hk, hs⟩ := h.pair x y (hxy.trans (List.suffix_cons c l).isInfix)
    refine ⟨_, List.mem_map_of_mem hk, pair_dropHead hs ?_⟩
    rintro rfl
    exact hc (hxy.subset (by simp))

theorem candidate_eq (hsub : ∀ k ∈ ls, k.Sublist (c :: l)) (hnd : (c :: l).Nodup)
    (h : Covers ls (c :: l)) : candidate ls = some c := by
  have hc : c ∉ l := (List.nodup_cons.1 hnd).1
  have htail : ∀ k ∈ ls, c ∉ k.tail := by
    intro k hk hmem
    exact hc ((hsub k hk).tail.subset hmem)
  obtain ⟨k, hk, hck⟩ := h.mem c List.mem_cons_self
  have hhead : k.head? = some c := by
    cases k with
    | nil => cases hck
    | cons y k =>
      rcases List.mem_cons.1 hck with rfl | hck
      · rfl
      · exact absurd hck (htail _ hk)
  unfold candidate
  obtain ⟨b, hb⟩ : ∃ b, (ls.filterMap List.head?).find?
      (fun c => ls.all fun l => c ∉ l.tail) = some b :=
    Option.isSome_iff_exists.1 (List.find?_isSome.2
      ⟨c, List.mem_filterMap.2 ⟨k, hk, hhead⟩, by simpa using htail⟩)
  have hgood : ∀ k ∈ ls, b ∉ k.tail := by simpa using List.find?_some hb
  obtain ⟨m, hm, hmb⟩ := List.mem_filterMap.1 (List.mem_of_find?_eq_some hb)
  have hbl : b ∈ c :: l := (hsub m hm).subset (List.mem_of_mem_head? hmb)
  rcases List.mem_cons.1 hbl with rfl | hbl
  · exact hb
  · obtain ⟨k', hk', hbk⟩ := h.mem_tail hbl
    exact absurd hbk (hgood k' hk')

theorem mergeWithin_eq : ∀ {l : List α} {n : ℕ} {ls : List (List α)},
    (∀ k ∈ ls, k.Sublist l) → l.Nodup → Covers ls l → l.length ≤ n →
      mergeWithin n ls = some l := by
  intro l
  induction l with
  | nil =>
    intro n ls hsub _ _ _
    have hempty : ls.all List.isEmpty = true := by
      simpa [List.isEmpty_iff] using fun k hk => List.sublist_nil.1 (hsub k hk)
    cases n <;> simp only [mergeWithin, hempty, if_true]
  | cons c l ih =>
    intro n ls hsub hnd hcov hn
    cases n with
    | zero => simp at hn
    | succ n =>
      obtain ⟨k, hk, hck⟩ := hcov.mem c List.mem_cons_self
      have hne : ¬ ls.all List.isEmpty = true := by
        intro hempty
        have : k = [] := List.isEmpty_iff.1 (List.all_eq_true.1 hempty k hk)
        simp [this] at hck
      have hsub' : ∀ k ∈ dropHead c ls, k.Sublist l := by
        intro k hk
        obtain ⟨k', hk', rfl⟩ := List.mem_map.1 hk
        exact sublist_dropHead (hsub k' hk')
      have hrest := ih (n := n) hsub' (List.nodup_cons.1 hnd).2 (hcov.dropHead hnd)
        (by simpa using hn)
      unfold mergeWithin
      rw [if_neg hne, candidate_eq hsub hnd hcov]
      show (mergeWithin n (dropHead c ls)).map (c :: ·) = some (c :: l)
      rw [hrest]
      rfl

/-- **The merge of lists that cover an order is that order.** -/
theorem merge_eq (hsub : ∀ k ∈ ls, k.Sublist l) (hnd : l.Nodup) (h : Covers ls l) :
    merge ls = some l :=
  mergeWithin_eq hsub hnd h (h.length_le hnd)

end C3
