import GenericBackground.Lib.WriteBack
import GenericBackground.TaskQueue.Enqueue
import GenericBackground.TaskQueue.Reattempt

/-!
# The poll of failed tasks

`_auto_retry_failed` locks up to ten failed tasks and retries them one after the other in a single
transaction. The ORM keeps the writes in its cache and flushes them when it likes (`flushes`). Each
retry has an exception handler of its own but no savepoint: a write that the database rejects aborts
the transaction, wherever the error surfaces.

So one rejected retry takes the whole batch with it (`auto_retry_isolated_iff`), and the next poll
selects the same batch again.
-/

namespace GenericTaskQueue

open Query WriteBack

/-- The tasks that a cycle selects; `locked` are the rows that others hold, and `rank` is the order
in which the database returns the rows. -/
def retryBatch (reg : Registry) (w : TaskQueueWorker) (locked : List TaskId) (rank : TaskId → ℕ)
    (T : Table) : List Task :=
  (select (fun a b => rank a.id ≤ rank b.id) (fun t => autoRetryable t ∧ t.channel ∈ w.channels ∧
    t.typeCode ∈ getEffectiveTaskTypes reg w ∧ t.id ∉ locked) T.rows).take 10

def retried (reg : Registry) (now : ℕ) (t : Task) : Task :=
  actionAutoRetry (retryEta reg now t.typeCode t.retryCount) t

/-- `_auto_retry_failed`: the rows once its transaction has ended. -/
def autoRetryFailed (reg : Registry) (w : TaskQueueWorker) (locked : List TaskId)
    (rank : TaskId → ℕ) (now : ℕ) (rejects : TaskId × Task → Bool)
    (flushes : TaskId → TaskId → Bool) (T : Table) : TaskId → Option Task :=
  (((retryBatch reg w locked rank T).foldl
    (fun x t => (x.write t.id (retried reg now t)).flush rejects (flushes t.id))
    (Cached.start T.get)).commit rejects).getD T.get

/-- The unique index rejects a row whose key another active task has. -/
def Table.keyHeld (T : Table) (p : TaskId × Task) : Bool :=
  (activeKey p.2).any fun a => T.rows.any fun u => u.id ≠ p.1 ∧ activeKey u = some a

/-- Every task of the batch is retried, but for the rejected ones, which are as before. -/
def Isolated (batch : List Task) (rejected : Task → Bool) (before after : TaskId → Option Task) :
    Prop :=
  ∀ t ∈ batch, if rejected t then after t.id = before t.id
    else ∃ t', after t.id = some t' ∧ t'.state = .pending ∧ t'.retryCount = t.retryCount + 1

variable {reg : Registry} {w : TaskQueueWorker} {locked : List TaskId} {rank : TaskId → ℕ} {now : ℕ}
  {rejects : TaskId × Task → Bool} {flushes : TaskId → TaskId → Bool} {T : Table} {t : Task}

theorem mem_retryBatch (h : t ∈ retryBatch reg w locked rank T) :
    t ∈ T.rows ∧ autoRetryable t = true := by
  obtain ⟨hm, hp⟩ := mem_of_mem_take h
  exact ⟨hm, (of_decide_eq_true hp).1⟩

theorem retryBatch_nodup : ((retryBatch reg w locked rank T).map Task.id).Nodup := by
  unfold retryBatch select
  refine List.Nodup.sublist ((List.take_sublist _ _).map _) ?_
  refine ((List.perm_insertionSort _ _).map Task.id).nodup_iff.2 ?_
  exact T.nodup.sublist (List.filter_sublist.map _)

theorem lookup_retried {l : List Task} (hl : (l.map Task.id).Nodup) (ht : t ∈ l) :
    (l.map fun u => (u.id, retried reg now u)).lookup t.id = some (retried reg now t) := by
  induction l with
  | nil => exact absurd ht List.not_mem_nil
  | cons u l ih =>
    rw [List.map_cons, List.nodup_cons] at hl
    rw [List.map_cons, List.lookup_cons]
    rcases List.mem_cons.1 ht with rfl | ht
    · simp
    · have hne : t.id ≠ u.id := fun h => hl.1 (h ▸ List.mem_map_of_mem ht)
      simp [beq_false_of_ne hne, ih hl.2 ht]

/-- **One transaction.** All retries of the batch are committed, or none. -/
theorem autoRetryFailed_eq : autoRetryFailed reg w locked rank now rejects flushes T =
    if (retryBatch reg w locked rank T).any fun t => rejects (t.id, retried reg now t) then T.get
    else fun k => (((retryBatch reg w locked rank T).map fun t => (t.id, retried reg now t)).lookup
      k).or (T.get k) := by
  have hl : (((retryBatch reg w locked rank T).map fun t =>
      (t.id, retried reg now t)).map Prod.fst).Nodup := by
    rw [List.map_map]
    exact retryBatch_nodup
  have hc := Cached.batch_commit rejects flushes T.get hl
  unfold Cached.writeAll at hc
  rw [List.foldl_map, List.any_map] at hc
  unfold autoRetryFailed
  rw [hc]
  simp only [Function.comp_def]
  split_ifs <;> rfl

/-- The cycle isolates the rejected retries exactly if it has none, or nothing else. -/
theorem auto_retry_isolated_iff : Isolated (retryBatch reg w locked rank T)
      (fun t => rejects (t.id, retried reg now t)) T.get
      (autoRetryFailed reg w locked rank now rejects flushes T) ↔
    (∀ t ∈ retryBatch reg w locked rank T, rejects (t.id, retried reg now t) = false) ∨
      ∀ t ∈ retryBatch reg w locked rank T, rejects (t.id, retried reg now t) = true := by
  rw [autoRetryFailed_eq]
  unfold Isolated
  split_ifs with hany
  · -- nothing is committed
    obtain ⟨u, hu, hr⟩ := List.any_eq_true.1 hany
    constructor
    · refine fun h => .inr fun t ht => ?_
      by_contra hno
      have htt := h t ht
      rw [if_neg hno] at htt
      obtain ⟨t', ht', hs, -⟩ := htt
      obtain ⟨hm, hret⟩ := mem_retryBatch ht
      obtain rfl := Option.some.inj ((Table.mem_iff_get.1 hm).symm.trans ht')
      rw [autoRetryable_failed hret] at hs
      cases hs
    · rintro (h | h) t ht
      · rw [h u hu] at hr
        cases hr
      · rw [if_pos (h t ht)]
  · have hall : ∀ t ∈ retryBatch reg w locked rank T, rejects (t.id, retried reg now t) = false :=
      fun t ht => Bool.eq_false_iff.2 fun hr => hany (List.any_eq_true.2 ⟨t, ht, hr⟩)
    refine iff_of_true (fun t ht => ?_) (.inl hall)
    rw [if_neg (Bool.eq_false_iff.1 (hall t ht))]
    dsimp only
    rw [lookup_retried retryBatch_nodup ht]
    exact ⟨_, rfl, rfl, rfl⟩

/-- Two failed tasks, and an active one with the key of the second. -/
def keyTaken : Table where
  rows := [
    { id := 1, name := "export", typeCode := "export", state := .failed, retryPolicy := .retryAny
      maxRetries := 3, dateCreated := 10, createUid := 2 },
    { id := 2, name := "nightly", typeCode := "export", state := .failed, retryPolicy := .retryAny
      maxRetries := 3, uniqueKey := some "nightly", dateCreated := 10, createUid := 2 },
    { id := 3, name := "nightly", typeCode := "export", uniqueKey := some "nightly"
      dateCreated := 20, createUid := 2 }]
  nodup := by decide

def exportWorker : TaskQueueWorker := { recordId := 1, serviceName := none }

/-- The first task, which nothing rejects, stays failed. -/
theorem keyTaken_not_isolated : ¬ Isolated (retryBatch [("export", {})] exportWorker [] id keyTaken)
    (fun t => keyTaken.keyHeld (t.id, retried [("export", {})] 100 t)) keyTaken.get
    (autoRetryFailed [("export", {})] exportWorker [] id 100 keyTaken.keyHeld (fun _ _ => false)
      keyTaken) := by
  intro h
  have h1 := h { id := 1, name := "export", typeCode := "export", state := .failed
                 retryPolicy := .retryAny, maxRetries := 3, dateCreated := 10, createUid := 2 }
    (by decide +kernel)
  rw [if_neg (by decide +kernel)] at h1
  obtain ⟨t', ht', hs, -⟩ := h1
  have hget : (autoRetryFailed [("export", {})] exportWorker [] id 100 keyTaken.keyHeld
      (fun _ _ => false) keyTaken 1).map Task.state = some .failed := by decide +kernel
  rw [ht', Option.map_some, hs] at hget
  cases hget

end GenericTaskQueue
