import GenericBackground.Lib.RowStore
import Mathlib.Data.List.Perm.Subperm

/-!
# Scans

`SELECT … LIMIT n FOR UPDATE SKIP LOCKED`: a transaction goes through a list of rows in order, locks
each row it can get, leaves out each one that another transaction holds, and stops once it has `n`
of them. What it has been through is a beginning of the list (`Txn.Scanned`), so when it stops it
has locked the first `n` rows of those that it did not leave out.

Alone, a transaction is never kept waiting and leaves nothing out: it locks what it asks for until
it asks for nothing more (`exists_lock_run`).
-/

namespace RowStore

open Lts

variable {A K V : Type*} {P : Prog A K V} {x : Txn A K V} {ks : List K} {n : ℕ}

theorem set_eq_self {s : Db A K V} {i : ℕ} (hx : s.txns i = some x) : s.set i (some x) = s := by
  unfold Db.set
  rw [← hx, Function.update_eq_self]

theorem set_set (s : Db A K V) (i : ℕ) (y z : Option (Txn A K V)) :
    (s.set i y).set i z = s.set i z := by
  simp [Db.set]

variable [DecidableEq K]

/-- The transaction goes through the rows `ks` in order, until it has locked `n` of them. -/
def Txn.Scans (P : Prog A K V) (ks : List K) (n : ℕ) (x : Txn A K V) : Prop :=
  ∀ L S, (P.next x.act x.snap L S).map Prod.snd =
    if n ≤ L.length then none else ks.find? fun k => k ∉ L ∧ k ∉ S

/-- It has been through `seen`: what it did not leave out of it, it has locked, in order. -/
structure Txn.Seen (ks seen rest : List K) (n : ℕ) (x : Txn A K V) : Prop where
  split : ks = seen ++ rest
  skipped : x.skipped ⊆ seen
  locked : x.locked.reverse = seen.filter (· ∉ x.skipped)
  within : x.locked.length ≤ n

def Txn.Scanned (ks : List K) (n : ℕ) (x : Txn A K V) : Prop :=
  ∃ seen rest, x.Seen ks seen rest n

theorem find?_rest {seen rest L S : List K} (hseen : ∀ k ∈ seen, k ∈ L ∨ k ∈ S)
    (hrest : ∀ k ∈ rest, k ∉ L ∧ k ∉ S) :
    (seen ++ rest).find? (fun k => k ∉ L ∧ k ∉ S) = rest.head? := by
  rw [List.find?_append, List.find?_eq_none.2, Option.none_or]
  · cases rest with
    | nil => rfl
    | cons k rest => rw [List.find?_cons_of_pos (by simpa using hrest k List.mem_cons_self)]; rfl
  · intro k hk
    simp only [decide_eq_true_eq, not_and_or, not_not]
    exact hseen k hk

namespace Txn.Seen

variable {seen rest : List K}

theorem seen_cases (h : x.Seen ks seen rest n) {k : K} (hk : k ∈ seen) :
    k ∈ x.locked ∨ k ∈ x.skipped := by
  by_cases hs : k ∈ x.skipped
  · exact .inr hs
  · refine .inl (List.mem_reverse.1 ?_)
    rw [h.locked]
    exact List.mem_filter.2 ⟨hk, by simpa using hs⟩

theorem rest_fresh (h : x.Seen ks seen rest n) (hn : ks.Nodup) {k : K} (hk : k ∈ rest) :
    k ∉ x.locked ∧ k ∉ x.skipped := by
  rw [h.split, List.nodup_append] at hn
  have hseen : k ∉ seen := fun hs => hn.2.2 k hs k hk rfl
  refine ⟨fun hl => hseen ?_, fun hs => hseen (h.skipped hs)⟩
  rw [← List.mem_reverse, h.locked] at hl
  exact List.mem_of_mem_filter hl

theorem asks (h : x.Seen ks seen rest n) (hx : x.Scans P ks n) (hn : ks.Nodup) :
    (x.asks P).map Prod.snd = if n ≤ x.locked.length then none else rest.head? := by
  show (P.next x.act x.snap x.locked x.skipped).map Prod.snd = _
  rw [hx, h.split, find?_rest (fun _ => h.seen_cases) fun _ => h.rest_fresh hn]

theorem asks_some (h : x.Seen ks seen rest n) (hx : x.Scans P ks n) (hn : ks.Nodup) {m : Mode}
    {k : K} (hk : x.asks P = some (m, k)) :
    x.locked.length < n ∧ ∃ rest', rest = k :: rest' := by
  have := h.asks hx hn
  rw [hk, Option.map_some] at this
  split_ifs at this with hlim
  cases rest with
  | nil => cases this
  | cons k' rest' =>
    obtain rfl := Option.some.inj this
    exact ⟨Nat.lt_of_not_le hlim, rest', rfl⟩

theorem locked_eq (h : x.Seen ks seen rest n) (hx : x.Scans P ks n) (hn : ks.Nodup)
    (hk : x.asks P = none) : x.locked.reverse = (ks.filter (· ∉ x.skipped)).take n := by
  have hrest : rest.filter (· ∉ x.skipped) = rest :=
    List.filter_eq_self.2 fun k hk => by simpa using (h.rest_fresh hn hk).2
  have hlen : (seen.filter (· ∉ x.skipped)).length = x.locked.length := by
    rw [← h.locked, List.length_reverse]
  rw [h.split, List.filter_append, hrest, h.locked]
  have hask := h.asks hx hn
  rw [hk, Option.map_none] at hask
  split_ifs at hask with hlim
  · -- it has enough
    rw [List.take_append_of_le_length (hlen.symm ▸ hlim), List.take_of_length_le]
    exact hlen.symm ▸ h.within
  · -- it has been through the list
    obtain rfl : rest = [] := List.head?_eq_none_iff.1 hask.symm
    rw [List.append_nil, List.take_of_length_le]
    exact hlen.symm ▸ h.within

theorem lock (h : x.Seen ks seen rest n) (hx : x.Scans P ks n) (hn : ks.Nodup) {m : Mode} {k : K}
    (hk : x.asks P = some (m, k)) :
    ∃ rest', Txn.Seen ks (seen ++ [k]) rest' n { x with locked := k :: x.locked } := by
  obtain ⟨hlt, rest', rfl⟩ := h.asks_some hx hn hk
  have hfresh := (h.rest_fresh hn List.mem_cons_self).2
  refine ⟨rest', by rw [h.split]; simp, fun j hj => List.mem_append_left _ (h.skipped hj), ?_, hlt⟩
  show (k :: x.locked).reverse = (seen ++ [k]).filter (· ∉ x.skipped)
  rw [List.reverse_cons, h.locked, List.filter_append,
    List.filter_cons_of_pos (by simpa using hfresh)]
  rfl

theorem skip (h : x.Seen ks seen rest n) (hx : x.Scans P ks n) (hn : ks.Nodup) {m : Mode} {k : K}
    (hk : x.asks P = some (m, k)) :
    ∃ rest', Txn.Seen ks (seen ++ [k]) rest' n { x with skipped := k :: x.skipped } := by
  obtain ⟨hlt, rest', rfl⟩ := h.asks_some hx hn hk
  refine ⟨rest', by rw [h.split]; simp, ?_, ?_, h.within⟩
  · intro j hj
    rcases List.mem_cons.1 hj with rfl | hj
    · exact List.mem_append_right _ List.mem_cons_self
    · exact List.mem_append_left _ (h.skipped hj)
  · show x.locked.reverse = (seen ++ [k]).filter (· ∉ k :: x.skipped)
    have hseen : k ∉ seen := by
      rw [h.split, List.nodup_append] at hn
      exact fun hs => hn.2.2 k hs k List.mem_cons_self rfl
    rw [List.filter_append, h.locked, List.filter_cons_of_neg (by simp), List.filter_nil,
      List.append_nil]
    refine List.filter_congr fun j hj => ?_
    have hne : j ≠ k := fun he => hseen (he ▸ hj)
    simp [hne]

end Txn.Seen

/-- Every open transaction that is a scan has been through a beginning of its list. -/
def Db.Scanned (P : Prog A K V) (s : Db A K V) : Prop :=
  ∀ i x ks n, s.txns i = some x → x.Scans P ks n → ks.Nodup → x.Scanned ks n

/-- **Scan invariant.** Every step keeps it. -/
theorem Step.scanned {s s' : Db A K V} {e : Event A} (h : s.Scanned P) (hs : Step P s e s') :
    s'.Scanned P := by
  intro i x' ks n hx' hsc hn
  rcases hs.txn_old hx' with ⟨x, hx, hact, hsnap, hcase⟩ | ⟨a, -, -, rfl⟩
  · have hsc' : x.Scans P ks n := fun L S => by rw [← hact, ← hsnap]; exact hsc L S
    obtain ⟨seen, rest, hseen⟩ := h i x ks n hx hsc' hn
    obtain ⟨act, snap, locked, skipped⟩ := x'
    obtain rfl : act = x.act := hact
    obtain rfl : snap = x.snap := hsnap
    rcases hcase with ⟨hl, hsk⟩ | ⟨-, m, k, hk, hl, hsk⟩ | ⟨-, k, hk, -, hl, hsk⟩
    · obtain rfl : locked = x.locked := hl
      obtain rfl : skipped = x.skipped := hsk
      exact ⟨seen, rest, hseen⟩
    · obtain rfl : locked = k :: x.locked := hl
      obtain rfl : skipped = x.skipped := hsk
      exact ⟨_, hseen.lock hsc' hn hk⟩
    · obtain rfl : locked = x.locked := hl
      obtain rfl : skipped = k :: x.skipped := hsk
      exact ⟨_, hseen.skip hsc' hn hk⟩
  · exact ⟨[], ks, rfl, List.Subset.refl _, rfl, Nat.zero_le n⟩

/-! ## A transaction on its own -/

/-- Alone, a transaction locks row after row until it asks for nothing more. `B` bounds the rows
that it asks for. -/
theorem exists_lock_run {s : Db A K V} {i : ℕ} (hx : s.txns i = some x) (hsnap : x.snap = s.cur)
    (hother : ∀ j ≠ i, s.txns j = none) {B : List K}
    (hB : ∀ L S m k, P.next x.act x.snap L S = some (m, k) → k ∈ B) (hnd : x.locked.Nodup)
    (hLB : x.locked ⊆ B) :
    ∃ m x', Path (step P) anyStep s (List.replicate m (.lock i)) (s.set i (some x')) ∧
      x'.act = x.act ∧ x'.snap = x.snap ∧ x'.skipped = x.skipped ∧ x'.asks P = none := by
  -- the rows of `B` that are still to be locked
  induction hm : B.length - x.locked.length generalizing x s with
  | zero =>
    refine ⟨0, x, ?_, rfl, rfl, rfl, ?_⟩
    · rw [set_eq_self hx]
      exact .nil s
    · cases hk : x.asks P with
      | none => rfl
      | some mk =>
        -- a further row would be one too many
        have hfresh := (P.next_fresh hk).1
        have hsub : mk.2 :: x.locked ⊆ B := List.cons_subset.2 ⟨hB _ _ _ _ hk, hLB⟩
        have := (List.subperm_of_subset (List.nodup_cons.2 ⟨hfresh, hnd⟩) hsub).length_le
        simp only [List.length_cons] at this
        omega
  | succ d ih =>
    cases hk : x.asks P with
    | none =>
      refine ⟨0, x, ?_, rfl, rfl, rfl, hk⟩
      rw [set_eq_self hx]
      exact .nil s
    | some mk =>
      obtain ⟨m, k⟩ := mk
      have hfree : s.Free i k := fun j _ hj => by
        unfold Db.holds
        rw [hother j hj]
        rfl
      have hstep : step P s (.lock i) = some (s.set i (some { x with locked := k :: x.locked })) :=
        step_iff.2 (.lock hx hk hfree (by rw [hsnap]))
      have hsub : k :: x.locked ⊆ B := List.cons_subset.2 ⟨hB _ _ _ _ hk, hLB⟩
      have hnd' : (k :: x.locked).Nodup := List.nodup_cons.2 ⟨(P.next_fresh hk).1, hnd⟩
      obtain ⟨m', x', hp, ha, hs, hsk, hn⟩ := ih
        (x := { x with locked := k :: x.locked }) (set_txns_self s i _) hsnap
        (fun j hj => (set_txns_ne s _ hj).trans (hother j hj)) hB hnd' hsub
        (by simp only [List.length_cons]; omega)
      refine ⟨m' + 1, x', ?_, ha, hs, hsk, hn⟩
      rw [List.replicate_succ]
      refine .cons trivial hstep ?_
      rwa [set_set] at hp

end RowStore
