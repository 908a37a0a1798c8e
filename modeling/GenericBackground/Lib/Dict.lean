import Mathlib.Data.List.Nodup

/-!
# Dictionaries in the order of insertion

A `Dict` is a finite map that is iterated over in the order in which its keys were first set. The
keys of the items are pairwise different, so a key has one value and `get` finds it.
-/

/-- A finite map whose items stand in the order of insertion. -/
structure Dict (κ ν : Type*) where
  items : List (κ × ν)
  nodup : (items.map Prod.fst).Nodup

namespace Dict

variable {κ ν : Type*}

@[ext] theorem ext {d d' : Dict κ ν} (h : d.items = d'.items) : d = d' := by
  cases d
  cases d'
  simpa using h

def empty : Dict κ ν := ⟨[], List.nodup_nil⟩

def keys (d : Dict κ ν) : List κ := d.items.map Prod.fst

@[simp] theorem keys_empty : (empty : Dict κ ν).keys = [] := rfl

/-- A key has one value. -/
theorem eq_of_mem {d : Dict κ ν} {k : κ} {v v' : ν} (h : (k, v) ∈ d.items)
    (h' : (k, v') ∈ d.items) : v = v' :=
  congrArg Prod.snd (List.inj_on_of_nodup_map d.nodup h h' rfl)

variable [DecidableEq κ]

def get (d : Dict κ ν) (k : κ) : Option ν := (d.items.find? (·.1 = k)).map Prod.snd

theorem mem_items_iff {d : Dict κ ν} {k : κ} {v : ν} : (k, v) ∈ d.items ↔ d.get k = some v := by
  constructor
  · intro h
    obtain ⟨p, hp⟩ : ∃ p, d.items.find? (·.1 = k) = some p :=
      Option.isSome_iff_exists.1 (List.find?_isSome.2 ⟨_, h, by simp⟩)
    have hk : p.1 = k := by simpa using List.find?_some hp
    have hv : p.2 = v := eq_of_mem (by simpa [← hk] using List.mem_of_find?_eq_some hp) h
    simp [get, hp, hv]
  · intro h
    obtain ⟨p, hp, hv⟩ := Option.map_eq_some_iff.1 h
    have hk : p.1 = k := by simpa using List.find?_some hp
    simpa [← hk, ← hv] using List.mem_of_find?_eq_some hp

theorem mem_keys_iff {d : Dict κ ν} {k : κ} : k ∈ d.keys ↔ ∃ v, d.get k = some v := by
  simp [keys, mem_items_iff]

theorem get_eq_none_iff {d : Dict κ ν} {k : κ} : d.get k = none ↔ k ∉ d.keys := by
  rw [mem_keys_iff, Option.eq_none_iff_forall_ne_some]
  simp

@[simp] theorem get_empty (k : κ) : (empty : Dict κ ν).get k = none := rfl

/-! ## Setting a key -/

/-- A key that is there keeps its place; a new one comes last. -/
def set (d : Dict κ ν) (k : κ) (v : ν) : Dict κ ν :=
  if h : k ∈ d.items.map Prod.fst then
    ⟨d.items.map fun p => if p.1 = k then (k, v) else p, by
      have : (d.items.map fun p => if p.1 = k then (k, v) else p).map Prod.fst =
          d.items.map Prod.fst := by
        rw [List.map_map]
        refine List.map_congr_left fun p _ => ?_
        by_cases hp : p.1 = k <;> simp [hp]
      rw [this]
      exact d.nodup⟩
  else ⟨d.items ++ [(k, v)], by
    rw [List.map_append]
    refine d.nodup.append (List.nodup_singleton k) fun k' h1 h2 => h ?_
    rwa [List.mem_singleton.1 h2] at h1⟩

theorem mem_set {d : Dict κ ν} {k : κ} {v : ν} {p : κ × ν} :
    p ∈ (d.set k v).items ↔ p = (k, v) ∨ p ∈ d.items ∧ p.1 ≠ k := by
  unfold set
  split
  · next h =>
    simp only [List.mem_map]
    constructor
    · rintro ⟨q, hq, rfl⟩
      by_cases hk : q.1 = k <;> simp [hk, hq]
    · rintro (rfl | ⟨hp, hk⟩)
      · obtain ⟨q, hq, hk⟩ := List.mem_map.1 h
        exact ⟨q, hq, by simp [hk]⟩
      · exact ⟨p, hp, by simp [hk]⟩
  · next h =>
    simp only [List.mem_append, List.mem_singleton]
    constructor
    · rintro (hp | rfl)
      · exact .inr ⟨hp, fun hk => h (List.mem_map.2 ⟨p, hp, hk⟩)⟩
      · exact .inl rfl
    · rintro (rfl | ⟨hp, -⟩)
      · exact .inr rfl
      · exact .inl hp

@[simp] theorem get_set (d : Dict κ ν) (k k' : κ) (v : ν) :
    (d.set k v).get k' = if k' = k then some v else d.get k' := by
  ext v'
  rw [← mem_items_iff, mem_set]
  by_cases hk : k' = k
  · simp [hk, eq_comm]
  · simp [hk, mem_items_iff]

@[simp] theorem mem_keys_set {d : Dict κ ν} {k k' : κ} {v : ν} :
    k' ∈ (d.set k v).keys ↔ k' = k ∨ k' ∈ d.keys := by
  simp only [mem_keys_iff, get_set]
  by_cases hk : k' = k <;> simp [hk]

/-! ## Deleting a key -/

def erase (d : Dict κ ν) (k : κ) : Dict κ ν :=
  ⟨d.items.filter (·.1 ≠ k), d.nodup.sublist ((List.filter_sublist).map _)⟩

@[simp] theorem mem_erase {d : Dict κ ν} {k : κ} {p : κ × ν} :
    p ∈ (d.erase k).items ↔ p ∈ d.items ∧ p.1 ≠ k := by
  simp [erase]

@[simp] theorem get_erase (d : Dict κ ν) (k k' : κ) :
    (d.erase k).get k' = if k' = k then none else d.get k' := by
  ext v
  rw [← mem_items_iff, mem_erase]
  by_cases hk : k' = k <;> simp [hk, mem_items_iff]

@[simp] theorem mem_keys_erase {d : Dict κ ν} {k k' : κ} :
    k' ∈ (d.erase k).keys ↔ k' ≠ k ∧ k' ∈ d.keys := by
  simp only [mem_keys_iff, get_erase]
  by_cases hk : k' = k <;> simp [hk]

end Dict
