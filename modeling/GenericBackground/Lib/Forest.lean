import Mathlib.Data.List.Basic
import Mathlib.Logic.Relation
import Mathlib.Order.Lattice
import Mathlib.Tactic.Common

/-!
# Descendants in a table of nodes

Nodes in a list, each with a key and the key of its parent. `closure` collects the descendants of
some keys level by level, each level out of the nodes that are left; with a round for each node it
finds all of them (`mem_closure_iff`).

Nothing keeps a table from having cycles. A table in which every parent has a smaller key than its
children has none (`Ordered.acyclic`), and a walk from node to parent descends in `rank`.
-/

namespace Forest

variable {α K : Type*} (key : α → K) (parent : α → Option K)

def Child (nodes : List α) (p d : K) : Prop := ∃ x ∈ nodes, key x = d ∧ parent x = some p

def Below (nodes : List α) : K → K → Prop := Relation.TransGen (Child key parent nodes)

theorem Below.mono {nodes nodes' : List α} (h : nodes' ⊆ nodes) {p d : K}
    (hb : Below key parent nodes' p d) : Below key parent nodes p d :=
  Relation.TransGen.mono (fun _ _ ⟨x, hx, he⟩ => ⟨x, h hx, he⟩) _ _ hb

/-- Who is below whom depends on the keys and the parents only. -/
theorem below_congr {nodes nodes' : List α}
    (h : nodes'.map (fun x => (key x, parent x)) = nodes.map fun x => (key x, parent x)) {p d : K} :
    Below key parent nodes' p d ↔ Below key parent nodes p d := by
  have hc : ∀ {l l' : List α}, l'.map (fun x => (key x, parent x)) =
      l.map (fun x => (key x, parent x)) → ∀ p d, Child key parent l' p d →
        Child key parent l p d := by
    rintro l l' hl p d ⟨x, hx, rfl, hp⟩
    obtain ⟨y, hy, he⟩ := List.mem_map.1 (hl ▸ List.mem_map_of_mem hx)
    obtain ⟨hk, hpar⟩ := Prod.mk.inj he
    exact ⟨y, hy, hk, hpar.trans hp⟩
  exact ⟨Relation.TransGen.mono (hc h) p d, Relation.TransGen.mono (hc h.symm) p d⟩

theorem Below.mem {nodes : List α} {p d : K} (h : Below key parent nodes p d) :
    ∃ x ∈ nodes, key x = d := by
  cases h with
  | single h => obtain ⟨x, hx, he, -⟩ := h; exact ⟨x, hx, he⟩
  | tail _ h => obtain ⟨x, hx, he, -⟩ := h; exact ⟨x, hx, he⟩

/-- The nodes below `p`, by the last step: its children, and the children of those below it. -/
theorem Below.last {nodes : List α} {p d : K} (h : Below key parent nodes p d) :
    ∃ x ∈ nodes, key x = d ∧ ∃ q, parent x = some q ∧ (p = q ∨ Below key parent nodes p q) := by
  cases h with
  | single h =>
    obtain ⟨x, hx, he, hp⟩ := h
    exact ⟨x, hx, he, p, hp, .inl rfl⟩
  | tail hb h =>
    obtain ⟨x, hx, he, hp⟩ := h
    exact ⟨x, hx, he, _, hp, .inr hb⟩

/-- The nodes below `p`, by the first step: its children, and the nodes below them. -/
theorem Below.first {nodes : List α} {p d : K} (h : Below key parent nodes p d) :
    ∃ x ∈ nodes, parent x = some p ∧ (key x = d ∨ Below key parent nodes (key x) d) := by
  induction h with
  | single h =>
    obtain ⟨x, hx, he, hp⟩ := h
    exact ⟨x, hx, hp, .inl he⟩
  | tail _ h ih =>
    obtain ⟨x, hx, hp, hor⟩ := ih
    refine ⟨x, hx, hp, .inr ?_⟩
    rcases hor with he | hb
    · exact .single (he ▸ h)
    · exact .tail hb h

theorem below_concat {nodes : List α} {y : α}
    (hleaf : ∀ x ∈ nodes ++ [y], parent x ≠ some (key y)) {p d : K} (hd : d ≠ key y)
    (h : Below key parent (nodes ++ [y]) p d) : Below key parent nodes p d := by
  have old : ∀ {p d}, d ≠ key y → Child key parent (nodes ++ [y]) p d →
      Child key parent nodes p d := by
    rintro p d hd ⟨x, hx, he, hp⟩
    rcases List.mem_append.1 hx with hx | hx
    · exact ⟨x, hx, he, hp⟩
    · rw [List.mem_singleton.1 hx] at he
      exact absurd he.symm hd
  induction h with
  | single h => exact .single (old hd h)
  | tail _ h ih =>
    -- the leaf has no child, so the node before the last is not the leaf
    obtain ⟨x, hx, -, hp⟩ := id h
    exact .tail (ih fun he => hleaf x hx (he ▸ hp)) (old hd h)

/-! ## Ordered forests -/

section Ordered

variable [LinearOrder K]

/-- Every parent is smaller than its children. -/
def Ordered (nodes : List α) : Prop := ∀ x ∈ nodes, ∀ p, parent x = some p → p < key x

/-- How many nodes there are up to a key. -/
def rank (nodes : List α) (p : K) : ℕ := (nodes.filter fun x => key x ≤ p).length

variable {key parent} {nodes : List α}

theorem Ordered.below_lt (h : Ordered key parent nodes) {p d : K}
    (hb : Below key parent nodes p d) : p < d := by
  induction hb with
  | single hc =>
    obtain ⟨x, hx, rfl, hp⟩ := hc
    exact h x hx _ hp
  | tail _ hc ih =>
    obtain ⟨x, hx, rfl, hp⟩ := hc
    exact lt_trans ih (h x hx _ hp)

/-- No node is its own ancestor. -/
theorem Ordered.acyclic (h : Ordered key parent nodes) (d : K) : ¬ Below key parent nodes d d :=
  fun hb => lt_irrefl d (h.below_lt hb)

theorem Ordered.rank_lt (h : Ordered key parent nodes) {x : α} {p : K} (hx : x ∈ nodes)
    (hp : parent x = some p) : rank key nodes p < rank key nodes (key x) := by
  have hlt := h x hx p hp
  have hsub : (nodes.filter fun y => key y ≤ p) =
      (nodes.filter fun y => key y ≤ key x).filter fun y => key y ≤ p := by
    rw [List.filter_filter]
    refine List.filter_congr fun y _ => ?_
    by_cases hy : key y ≤ p
    · simp [hy, le_trans hy (le_of_lt hlt)]
    · simp [hy]
  unfold rank
  rw [hsub]
  refine List.length_filter_lt_length_iff_exists.2 ⟨x, ?_, ?_⟩
  · exact List.mem_filter.2 ⟨hx, by simp⟩
  · simpa using hlt

theorem rank_le_length (p : K) : rank key nodes p ≤ nodes.length := List.length_filter_le _ _

end Ordered

/-! ## Descendants -/

variable [DecidableEq K]

/-- The keys given, and the nodes below them. -/
def closure : ℕ → List α → List K → List K
  | 0, _, ids => ids
  | n + 1, nodes, ids =>
    let rest := nodes.filter fun x => key x ∉ ids
    let next := rest.filter fun x => (parent x).any (· ∈ ids)
    ids ++ if next.isEmpty then [] else closure n rest (next.map key)

variable {key parent}

theorem mem_closure_of_mem {n : ℕ} {nodes : List α} {ids : List K} {i : K} (h : i ∈ ids) :
    i ∈ closure key parent n nodes ids := by
  cases n with
  | zero => exact h
  | succ n => exact List.mem_append_left _ h

theorem closure_subset {S : K → Prop} {n : ℕ} {nodes : List α} {ids : List K}
    (hS : ∀ x ∈ nodes, ∀ p, parent x = some p → S p → S (key x)) (hids : ∀ i ∈ ids, S i) :
    ∀ i ∈ closure key parent n nodes ids, S i := by
  induction n generalizing nodes ids with
  | zero => exact hids
  | succ n ih =>
    intro i hi
    unfold closure at hi
    rcases List.mem_append.1 hi with hi | hi
    · exact hids i hi
    · split_ifs at hi
      · exact absurd hi List.not_mem_nil
      · refine ih (fun x hx => hS x (List.mem_of_mem_filter hx)) (fun j hj => ?_) i hi
        obtain ⟨x, hx, rfl⟩ := List.mem_map.1 hj
        obtain ⟨hx, hp⟩ := List.mem_filter.1 hx
        simp only [Option.any_eq_true, decide_eq_true_eq] at hp
        obtain ⟨p, hp, hpi⟩ := hp
        exact hS x (List.mem_of_mem_filter hx) p hp (hids p hpi)

theorem closure_closed {n : ℕ} {nodes : List α} {ids : List K} (hn : nodes.length ≤ n)
    (hids : ∃ x ∈ nodes, key x ∈ ids) {x : α} {p : K} (hx : x ∈ nodes) (hpar : parent x = some p)
    (hp : p ∈ closure key parent n nodes ids) : key x ∈ closure key parent n nodes ids := by
  induction n generalizing nodes ids with
  | zero =>
    rw [List.eq_nil_of_length_eq_zero (Nat.le_zero.1 hn)] at hx
    cases hx
  | succ n ih =>
    by_cases hid : key x ∈ ids
    · exact mem_closure_of_mem hid
    unfold closure at hp ⊢
    have hrest : x ∈ nodes.filter fun x => key x ∉ ids :=
      List.mem_filter.2 ⟨hx, decide_eq_true hid⟩
    refine List.mem_append_right _ ?_
    rcases List.mem_append.1 hp with hp | hp
    · -- a child of this level is in the next
      have hmem : x ∈ (nodes.filter fun x => key x ∉ ids).filter fun x =>
          (parent x).any (· ∈ ids) := List.mem_filter.2 ⟨hrest, by simp [hpar, hp]⟩
      rw [if_neg (by rw [List.isEmpty_iff]; exact List.ne_nil_of_mem hmem)]
      exact mem_closure_of_mem (List.mem_map_of_mem hmem)
    · split_ifs at hp with hnil
      · cases hp
      · rw [if_neg hnil]
        -- the nodes left are fewer, and the next level is among them
        have hlen : (nodes.filter fun x => key x ∉ ids).length < nodes.length := by
          obtain ⟨y, hy, hyid⟩ := hids
          exact List.length_filter_lt_length_iff_exists.2 ⟨y, hy, by simpa using hyid⟩
        rw [List.isEmpty_iff] at hnil
        obtain ⟨y, hy⟩ := List.exists_mem_of_ne_nil _ hnil
        exact ih (by omega) ⟨y, List.mem_of_mem_filter hy, List.mem_map_of_mem hy⟩ hrest hp

/-- **Closure.** The keys given and their descendants. -/
theorem mem_closure_iff {nodes : List α} {ids : List K} (hids : ∀ i ∈ ids, ∃ x ∈ nodes, key x = i)
    {d : K} : d ∈ closure key parent nodes.length nodes ids ↔
      d ∈ ids ∨ ∃ r ∈ ids, Below key parent nodes r d := by
  constructor
  · intro h
    refine closure_subset (S := fun d => d ∈ ids ∨ ∃ r ∈ ids, Below key parent nodes r d)
      (fun x hx p hpar hp => ?_) (fun i hi => .inl hi) d h
    rcases hp with hp | ⟨r, hr, hb⟩
    · exact .inr ⟨p, hp, .single ⟨x, hx, rfl, hpar⟩⟩
    · exact .inr ⟨r, hr, .tail hb ⟨x, hx, rfl, hpar⟩⟩
  · rintro (h | ⟨r, hr, hb⟩)
    · exact mem_closure_of_mem h
    · obtain ⟨y, hy, hyr⟩ := hids r hr
      induction hb with
      | single h =>
        obtain ⟨x, hx, rfl, hpar⟩ := h
        exact closure_closed (Nat.le_refl _) ⟨y, hy, hyr ▸ hr⟩ hx hpar (mem_closure_of_mem hr)
      | tail _ h ih =>
        obtain ⟨x, hx, rfl, hpar⟩ := h
        exact closure_closed (Nat.le_refl _) ⟨y, hy, hyr ▸ hr⟩ hx hpar ih

end Forest
