import Mathlib.Data.List.Nodup
import Mathlib.Logic.Function.Basic
import Mathlib.Tactic.Common

/-!
# Deferred writes in one transaction

A transaction that keeps its writes in a cache, one value for each key, and sends them to the
database when it flushes, at the latest when it commits. The database may reject a write. From then
on the transaction is aborted: it sends nothing more, and its commit is a rollback.

When the flushes happen makes no difference (`commit_eq`): the commit fails if one of the writes is
one that the database rejects (`Doomed`), and leaves what the transaction sees (`view`) otherwise.
-/

namespace WriteBack

variable {K V : Type*} [DecidableEq K]

/-- The rows as the transaction has written them, the writes that are still to be sent, and whether
one has been rejected. -/
structure Cached (K V : Type*) where
  rows : K → Option V
  dirty : List (K × V)
  aborted : Bool
  nodup : (dirty.map Prod.fst).Nodup

namespace Cached

/-- A transaction that has written nothing. -/
def start (rows : K → Option V) : Cached K V := ⟨rows, [], false, List.nodup_nil⟩

/-- The row as the transaction reads it. -/
def view (x : Cached K V) (k : K) : Option V := (x.dirty.lookup k).or (x.rows k)

/-- A write goes to the cache. -/
def write (k : K) (v : V) (x : Cached K V) : Cached K V where
  rows := x.rows
  dirty := x.dirty.filter (·.1 ≠ k) ++ [(k, v)]
  aborted := x.aborted
  nodup := by
    rw [List.map_append, List.nodup_append]
    refine ⟨x.nodup.sublist (List.filter_sublist.map _), List.nodup_singleton k, ?_⟩
    rintro a ha b hb rfl
    obtain ⟨p, hp, rfl⟩ := List.mem_map.1 ha
    have hne := (List.mem_filter.1 hp).2
    simp [List.mem_singleton.1 hb] at hne

/-- A write is sent to the database. -/
def send (rejects : K × V → Bool) (x : Cached K V) (p : K × V) : Cached K V :=
  if x.aborted then x
  else if rejects p then { x with aborted := true }
  else { x with rows := Function.update x.rows p.1 (some p.2) }

/-- A flush of the keys in `now`. -/
def flush (rejects : K × V → Bool) (now : K → Bool) (x : Cached K V) : Cached K V :=
  (x.dirty.filter fun p => now p.1).foldl (send rejects)
    { x with
      dirty := x.dirty.filter fun p => !now p.1
      nodup := x.nodup.sublist (List.filter_sublist.map _) }

/-- The rows that the commit leaves, unless it is a rollback. -/
def commit (rejects : K × V → Bool) (x : Cached K V) : Option (K → Option V) :=
  if (x.flush rejects fun _ => true).aborted then none
  else some (x.flush rejects fun _ => true).rows

/-- The transaction has sent, or is going to send, a write that is rejected. -/
def Doomed (rejects : K × V → Bool) (x : Cached K V) : Prop :=
  x.aborted = true ∨ ∃ p ∈ x.dirty, rejects p = true

variable {rejects : K × V → Bool} {x : Cached K V} {k : K} {v : V}

/-! ## Sending -/

theorem lookup_none {l : List (K × V)} (h : k ∉ l.map Prod.fst) : l.lookup k = none := by
  refine List.lookup_eq_none_iff.2 fun q hq => ?_
  rw [bne_iff_ne]
  rintro rfl
  exact h (List.mem_map_of_mem hq)

theorem send_dirty (x : Cached K V) (p : K × V) : (x.send rejects p).dirty = x.dirty := by
  unfold send
  split_ifs <;> rfl

theorem foldl_send_dirty (l : List (K × V)) (x : Cached K V) :
    (l.foldl (send rejects) x).dirty = x.dirty := by
  induction l generalizing x with
  | nil => rfl
  | cons p l ih => exact (ih _).trans (send_dirty x p)

theorem foldl_send_aborted {l : List (K × V)} {x : Cached K V} :
    (l.foldl (send rejects) x).aborted = true ↔
      x.aborted = true ∨ ∃ p ∈ l, rejects p = true := by
  induction l generalizing x with
  | nil => simp
  | cons p l ih =>
    rw [List.foldl_cons, ih, List.exists_mem_cons_iff, ← or_assoc]
    refine or_congr_left ?_
    unfold send
    cases hx : x.aborted <;> cases hp : rejects p <;> simp [hx]

theorem foldl_send_rows {l : List (K × V)} {x : Cached K V} (hl : (l.map Prod.fst).Nodup)
    (h : (l.foldl (send rejects) x).aborted = false) (k : K) :
    (l.foldl (send rejects) x).rows k = (l.lookup k).or (x.rows k) := by
  induction l generalizing x with
  | nil => rfl
  | cons p l ih =>
    obtain ⟨k', v⟩ := p
    rw [List.map_cons, List.nodup_cons] at hl
    have hx : ¬ x.aborted = true ∧ ¬ rejects (k', v) = true := by
      rw [← Bool.not_eq_true, foldl_send_aborted, not_or] at h
      exact ⟨h.1, fun hr => h.2 ⟨_, List.mem_cons_self, hr⟩⟩
    have hsend : x.send rejects (k', v) =
        { x with rows := Function.update x.rows k' (some v) } := by
      unfold send
      rw [if_neg hx.1, if_neg hx.2]
    rw [List.foldl_cons] at h ⊢
    rw [ih hl.2 h, hsend, List.lookup_cons]
    by_cases hk : k = k'
    · -- no later write is to the same key
      subst hk
      simp [lookup_none hl.1]
    · simp [hk, beq_false_of_ne hk]

/-! ## What the transaction reads -/

theorem filter_lookup (now : K → Bool) (l : List (K × V)) (k : K) :
    (l.filter fun p => now p.1).lookup k = if now k then l.lookup k else none := by
  induction l with
  | nil => simp
  | cons p l ih =>
    obtain ⟨k', v⟩ := p
    rw [List.filter_cons]
    by_cases hk : k = k'
    · subst hk
      cases hn : now k <;> simp [hn, ih]
    · cases hn : now k' <;> simp [ih, List.lookup_cons, beq_false_of_ne hk]

theorem view_write (x : Cached K V) (k : K) (v : V) (k' : K) :
    (x.write k v).view k' = if k' = k then some v else x.view k' := by
  unfold view write
  simp only
  have hl := filter_lookup (fun a => decide (a ≠ k)) x.dirty k'
  rw [List.lookup_append, hl]
  by_cases hk : k' = k
  · simp [hk]
  · simp [hk, List.lookup_cons, beq_false_of_ne hk]

theorem doomed_write (hk : ∀ p ∈ x.dirty, p.1 ≠ k) :
    (x.write k v).Doomed rejects ↔ x.Doomed rejects ∨ rejects (k, v) = true := by
  have hf : x.dirty.filter (fun p => decide (p.1 ≠ k)) = x.dirty :=
    List.filter_eq_self.2 fun p hp => decide_eq_true (hk p hp)
  unfold Doomed write
  simp only [hf, List.mem_append, List.mem_singleton]
  constructor
  · rintro (h | ⟨p, hp | rfl, hr⟩)
    · exact .inl (.inl h)
    · exact .inl (.inr ⟨p, hp, hr⟩)
    · exact .inr hr
  · rintro ((h | ⟨p, hp, hr⟩) | hr)
    · exact .inl h
    · exact .inr ⟨p, .inl hp, hr⟩
    · exact .inr ⟨_, .inr rfl, hr⟩

theorem flush_dirty (now : K → Bool) (x : Cached K V) :
    (x.flush rejects now).dirty = x.dirty.filter fun p => !now p.1 := foldl_send_dirty _ _

theorem doomed_flush (now : K → Bool) (x : Cached K V) :
    (x.flush rejects now).Doomed rejects ↔ x.Doomed rejects := by
  unfold Doomed
  rw [flush_dirty]
  unfold flush
  rw [foldl_send_aborted]
  simp only [List.mem_filter, or_assoc]
  refine or_congr_right ⟨?_, ?_⟩
  · rintro (⟨p, ⟨hp, -⟩, hr⟩ | ⟨p, ⟨hp, -⟩, hr⟩) <;> exact ⟨p, hp, hr⟩
  · rintro ⟨p, hp, hr⟩
    cases hn : now p.1
    · exact .inr ⟨p, ⟨hp, by rw [hn]; rfl⟩, hr⟩
    · exact .inl ⟨p, ⟨hp, hn⟩, hr⟩

/-- A flush changes nothing that the transaction reads, as long as no write is rejected. -/
theorem view_flush (now : K → Bool) (h : ¬ x.Doomed rejects) (k : K) :
    (x.flush rejects now).view k = x.view k := by
  have hab : (x.flush rejects now).aborted = false :=
    Bool.eq_false_iff.2 fun ha => h ((doomed_flush now x).1 (.inl ha))
  unfold view
  rw [flush_dirty, filter_lookup (fun a => !now a)]
  unfold flush at hab ⊢
  rw [foldl_send_rows (x.nodup.sublist (List.filter_sublist.map _)) hab, filter_lookup]
  cases now k <;> simp

/-- **Commit.** The commit of a doomed transaction is a rollback; any other leaves what the
transaction reads. -/
theorem commit_eq (rejects : K × V → Bool) (x : Cached K V) [Decidable (x.Doomed rejects)] :
    x.commit rejects = if x.Doomed rejects then none else some x.view := by
  have hd : (x.flush rejects fun _ => true).Doomed rejects ↔ x.Doomed rejects :=
    doomed_flush _ x
  have hdirty : (x.flush rejects fun _ => true).dirty = [] := by
    rw [flush_dirty]
    simp
  unfold commit
  split_ifs with ha h h
  · rfl
  · exact absurd (hd.1 (.inl ha)) h
  · rcases hd.2 h with h' | ⟨p, hp, -⟩
    · exact absurd h' ha
    · rw [hdirty] at hp
      exact absurd hp List.not_mem_nil
  · congr 1
    funext k
    rw [← view_flush (fun _ => true) h k]
    unfold view
    rw [hdirty]
    rfl

/-! ## A sequence of writes -/

/-- Writes, each followed by a flush of the keys that `flushes` gives. -/
def writeAll (rejects : K × V → Bool) (flushes : K → K → Bool) (x : Cached K V)
    (l : List (K × V)) : Cached K V :=
  l.foldl (fun x p => (x.write p.1 p.2).flush rejects (flushes p.1)) x

theorem write_fresh {p : K × V} {l : List (K × V)} {flushes : K → Bool} {x : Cached K V}
    (hp : p.1 ∉ l.map Prod.fst) (hx : ∀ q ∈ x.dirty, q.1 ∉ (p :: l).map Prod.fst) :
    ∀ q ∈ ((x.write p.1 p.2).flush rejects flushes).dirty, q.1 ∉ l.map Prod.fst := by
  intro q hq hm
  rw [flush_dirty] at hq
  have hq := List.mem_of_mem_filter hq
  unfold write at hq
  simp only [List.mem_append, List.mem_singleton] at hq
  rcases hq with hq | rfl
  · exact hx q (List.mem_of_mem_filter hq) (List.mem_cons_of_mem _ hm)
  · exact hp hm

theorem writeAll_doomed {flushes : K → K → Bool} {l : List (K × V)} {x : Cached K V}
    (hl : (l.map Prod.fst).Nodup) (hx : ∀ p ∈ x.dirty, p.1 ∉ l.map Prod.fst) :
    (x.writeAll rejects flushes l).Doomed rejects ↔
      x.Doomed rejects ∨ ∃ p ∈ l, rejects p = true := by
  induction l generalizing x with
  | nil => simp [writeAll]
  | cons p l ih =>
    rw [List.map_cons, List.nodup_cons] at hl
    have hfresh : ∀ q ∈ x.dirty, q.1 ≠ p.1 := fun q hq he =>
      hx q hq (by rw [List.map_cons, he]; exact List.mem_cons_self)
    refine (ih hl.2 (write_fresh hl.1 hx)).trans ?_
    rw [doomed_flush, doomed_write hfresh, List.exists_mem_cons_iff, or_assoc]

theorem writeAll_view {flushes : K → K → Bool} {l : List (K × V)} {x : Cached K V}
    (hl : (l.map Prod.fst).Nodup) (h : ¬ (x.writeAll rejects flushes l).Doomed rejects)
    (hx : ∀ p ∈ x.dirty, p.1 ∉ l.map Prod.fst) (k : K) :
    (x.writeAll rejects flushes l).view k = (l.lookup k).or (x.view k) := by
  induction l generalizing x with
  | nil => rfl
  | cons p l ih =>
    have hno := (writeAll_doomed hl hx).not.1 h
    have hfresh : ∀ q ∈ x.dirty, q.1 ≠ p.1 := fun q hq he =>
      hx q hq (by rw [List.map_cons, he]; exact List.mem_cons_self)
    have hw : ¬ (x.write p.1 p.2).Doomed rejects := by
      rw [doomed_write hfresh]
      exact fun hd => hno (hd.imp_right fun hr => ⟨p, List.mem_cons_self, hr⟩)
    rw [List.map_cons, List.nodup_cons] at hl
    refine (ih hl.2 h (write_fresh hl.1 hx)).trans ?_
    rw [view_flush _ hw, view_write, List.lookup_cons]
    by_cases hk : k = p.1
    · simp [hk, lookup_none hl.1]
    · simp [hk, beq_false_of_ne hk]

/-- **Batch.** Writes to distinct keys in one transaction: all of them are committed or, if one is
rejected, none. -/
theorem batch_commit (rejects : K × V → Bool) (flushes : K → K → Bool) (rows : K → Option V)
    {l : List (K × V)} (hl : (l.map Prod.fst).Nodup) :
    ((start rows).writeAll rejects flushes l).commit rejects =
      if l.any rejects then none else some fun k => (l.lookup k).or (rows k) := by
  classical
  have hx : ∀ p ∈ (start rows).dirty, p.1 ∉ l.map Prod.fst :=
    fun p hp => absurd hp List.not_mem_nil
  have hd : ((start rows).writeAll rejects flushes l).Doomed rejects ↔
    (start rows).Doomed rejects ∨ ∃ p ∈ l, rejects p = true := writeAll_doomed hl hx
  have hs : ¬ (start rows).Doomed rejects := by
    rintro (h | ⟨p, hp, -⟩)
    · cases h
    · exact absurd hp List.not_mem_nil
  rw [commit_eq]
  by_cases h : ∃ p ∈ l, rejects p = true
  · rw [if_pos (hd.2 (.inr h)), if_pos (List.any_eq_true.2 h)]
  · have hno := hd.not.2 (not_or.2 ⟨hs, h⟩)
    rw [if_neg hno, if_neg (fun ha => h (List.any_eq_true.1 ha))]
    congr 1
    funext k
    exact writeAll_view hl hno hx k

end Cached

end WriteBack
