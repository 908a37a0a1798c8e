import GenericBackground.Lib.RowStore
import Mathlib.Data.Finset.Max

/-!
# Transactions that wait for each other

A transaction that waits for a row waits for the transaction that has locked it. Transactions that
wait for each other in a circle are a deadlock. In a circle every transaction waits and is waited
for; so there is none if along the waits between such transactions some measure goes up: of the
transactions of a circle take the highest, the one it waits for is higher.
-/

namespace RowStore

variable {A K V R : Type*} {P : Prog A K V} {s : Db A K V} [DecidableEq K]

/-- Transaction `i` waits for a row that `j` has locked. -/
def Db.Waits (P : Prog A K V) (s : Db A K V) (i j : ℕ) : Prop :=
  ∃ x k, s.txns i = some x ∧ x.asks P = some (.wait, k) ∧ j ≠ i ∧ s.holds j k = true

/-- Each of the transactions waits for another of them. -/
def Db.Deadlock (P : Prog A K V) (s : Db A K V) (D : Finset ℕ) : Prop :=
  D.Nonempty ∧ ∀ i ∈ D, ∃ j ∈ D, s.Waits P i j

/-- Those of a deadlock that are waited for are a deadlock. -/
theorem Db.Deadlock.core {D : Finset ℕ} (h : s.Deadlock P D) :
    ∃ C, s.Deadlock P C ∧ ∀ j ∈ C, ∃ i, s.Waits P i j := by
  classical
  obtain ⟨⟨i, hi⟩, hwait⟩ := h
  have waited : ∀ i ∈ D, ∃ j ∈ D.filter (fun j => ∃ i, s.Waits P i j), s.Waits P i j := by
    intro i hi
    obtain ⟨j, hj, hij⟩ := hwait i hi
    exact ⟨j, Finset.mem_filter.2 ⟨hj, i, hij⟩, hij⟩
  obtain ⟨j, hj, -⟩ := waited i hi
  exact ⟨_, ⟨⟨j, hj⟩, fun j hj => waited j (Finset.mem_filter.1 hj).1⟩,
    fun j hj => (Finset.mem_filter.1 hj).2⟩

/-- **Waits that go up.** If a transaction that is waited for waits only for higher ones, there is
no deadlock. -/
theorem not_deadlock [LinearOrder R] {f : ℕ → R}
    (h : ∀ i j l m, s.Waits P i j → s.Waits P j l → s.Waits P l m → f j < f l) (D : Finset ℕ) :
    ¬ s.Deadlock P D := by
  intro hd
  obtain ⟨C, ⟨hne, hwait⟩, hwaited⟩ := hd.core
  obtain ⟨j, hj, hmax⟩ := C.exists_max_image f hne
  obtain ⟨i, hij⟩ := hwaited j hj
  obtain ⟨l, hl, hjl⟩ := hwait j hj
  obtain ⟨m, -, hlm⟩ := hwait l hl
  exact absurd (hmax l hl) (not_le_of_gt (h i j l m hij hjl hlm))

theorem exists_not_waiting (hw : s.Wf P) (h : ∀ D, ¬ s.Deadlock P D)
    (ho : ∃ i x, s.txns i = some x) : ∃ i x, s.txns i = some x ∧ ∀ j, ¬ s.Waits P i j := by
  by_contra hno
  have hall : ∀ i x, s.txns i = some x → ∃ j, s.Waits P i j := fun i x hx => by
    by_contra hn
    exact hno ⟨i, x, hx, fun j hj => hn ⟨j, hj⟩⟩
  have hmem : ∀ i, i ∈ (Finset.range s.nextId).filter (fun i => (s.txns i).isSome = true) ↔
      ∃ x, s.txns i = some x := fun i => by
    rw [Finset.mem_filter, Finset.mem_range, Option.isSome_iff_exists]
    exact ⟨fun h => h.2, fun ⟨x, hx⟩ => ⟨hw.bound i x hx, x, hx⟩⟩
  obtain ⟨i, x, hx⟩ := ho
  refine h _ ⟨⟨i, (hmem i).2 ⟨x, hx⟩⟩, fun i hi => ?_⟩
  obtain ⟨x, hx⟩ := (hmem i).1 hi
  obtain ⟨j, hj⟩ := hall i x hx
  obtain ⟨_, _, _, _, _, hheld⟩ := id hj
  obtain ⟨y, hy, -⟩ := holds_iff.1 hheld
  exact ⟨j, (hmem j).2 ⟨y, hy⟩, hj⟩

end RowStore
