import GenericBackground.TaskQueue.Table
import Mathlib.Data.List.Dedup

/-!
# Actions on recordsets

The transitions called on several tasks at once. All but `action_retry` check the whole recordset
before the one write, and `action_cancel` then goes down to the active children, on which its own
check cannot fail. `action_retry` goes record by record: a task that cannot be retried raises after
those before it have been written. A table stands for the tasks that the caller may read: he finds
no others among the children.

A call leaves a table also when it raises, since its caller may catch the error and go on in the
same transaction.
-/

namespace GenericTaskQueue

/-! ## The actions -/

def missingError : TaskError := .validationError "Record does not exist or has been deleted."

def Task.cancelledAt (now : ℕ) (t : Task) : Task :=
  { t with state := .cancelled, dateCompleted := some now }

/-- A call of `action_cancel`: the table it leaves, the recordsets of this call and of those that it
makes, and how it ends. -/
structure CancelCall where
  table : Table
  calls : List (List TaskId)
  result : Except TaskError Unit

namespace Records

def checkTransition (newState : TaskState) (T : Table) : List TaskId → Except TaskError Unit
  | [] => .ok ()
  | id :: ids => match T.get id with
    | none => .error missingError
    | some t => (GenericTaskQueue.checkTransition newState t).bind fun _ =>
      checkTransition newState T ids

/-- The check of the whole recordset, and one write. -/
def transition (newState : TaskState) (vals : Task → Task) (ids : List TaskId) (T : Table) :
    Table × Except TaskError Unit :=
  match checkTransition newState T ids with
  | .error e => (T, .error e)
  | .ok _ => (T.updateAll ids vals, .ok ())

def actionAssign (worker : WorkerId) : List TaskId → Table → Table × Except TaskError Unit :=
  transition .assigned fun t => { t with state := .assigned, workerId := some worker }

def actionStart (now : ℕ) : List TaskId → Table → Table × Except TaskError Unit :=
  transition .running fun t =>
    { t with state := .running, dateStarted := some now, progress := 0 }

def actionStuck : List TaskId → Table → Table × Except TaskError Unit :=
  transition .stuck fun t => { t with state := .stuck }

/-- `action_done` without a runner. -/
def actionDone (now : ℕ) (result : Option Json) :
    List TaskId → Table → Table × Except TaskError Unit :=
  transition .done fun t => { t with
    state := .done, taskResult := result, dateCompleted := some now, progress := 100 }

def actionWaitChildren : List TaskId → Table → Table × Except TaskError Unit :=
  transition .waiting fun t => { t with state := .waiting }

/-- `action_retry`: check and write, record by record. -/
def actionRetry (eta : Option ℕ) : List TaskId → Table → Table × Except TaskError Unit
  | [], T => (T, .ok ())
  | id :: ids, T => match T.get id with
    | none => (T, .error missingError)
    | some t => match GenericTaskQueue.actionRetry eta t with
      | .error e => (T, .error e)
      | .ok t' => actionRetry eta ids (T.update id fun _ => t')

def activeChildren (T : Table) (ids : List TaskId) : List TaskId :=
  (((ids.flatMap T.children).filter (·.state ∈ activeStates)).map Task.id).dedup

/-- `action_cancel`, with a bound on the depth of the recursion: `none` if it is not enough. -/
def actionCancel (now : ℕ) : ℕ → List TaskId → Table → Option CancelCall
  | 0, _, _ => none
  | n + 1, ids, T => match checkTransition .cancelled T ids with
    | .error e => some ⟨T, [ids], .error e⟩
    | .ok _ =>
      let T := T.updateAll ids (Task.cancelledAt now)
      let childrenToCancel := activeChildren T ids
      if childrenToCancel = [] then some ⟨T, [ids], .ok ()⟩
      else (actionCancel now n childrenToCancel T).map fun c => { c with calls := ids :: c.calls }

end Records

inductive BatchAction where
  | assign (worker : WorkerId)
  | start (now : ℕ)
  | stuck
  | done (now : ℕ) (result : Option Json)
  | waitChildren
  | cancel (now : ℕ)
  | retry (eta : Option ℕ)
  deriving DecidableEq, Repr

/-- The action on one record. -/
def BatchAction.onTask : BatchAction → Task → Except TaskError Task
  | .assign worker => actionAssign worker
  | .start now => actionStart now
  | .stuck => actionStuck
  | .done now result => actionDone now result
  | .waitChildren => actionWaitChildren
  | .cancel now => actionCancel now
  | .retry eta => actionRetry eta

/-- A call on a recordset, with recursions of depth less than `n`. -/
def BatchAction.call (n : ℕ) (ids : List TaskId) (T : Table) :
    BatchAction → Option (Table × Except TaskError Unit)
  | .assign worker => some (Records.actionAssign worker ids T)
  | .start now => some (Records.actionStart now ids T)
  | .stuck => some (Records.actionStuck ids T)
  | .done now result => some (Records.actionDone now result ids T)
  | .waitChildren => some (Records.actionWaitChildren ids T)
  | .cancel now => (Records.actionCancel now n ids T).map fun c => (c.table, c.result)
  | .retry eta => some (Records.actionRetry eta ids T)

/-- A call that has left `T'` and ended with `r` is all or nothing. -/
structure AllOrNothing (a : BatchAction) (ids : List TaskId) (T T' : Table)
    (r : Except TaskError Unit) : Prop where
  nothing : ∀ e, r = .error e → ∀ i, T'.get i = T.get i
  all : r = .ok () → ∀ i ∈ ids, ∃ t t', T.get i = some t ∧ a.onTask t = .ok t' ∧ T'.get i = some t'

/-- A retry does not get to a record that it refuses after one that it has written: the first record
is refused, or none is. A record that is named twice is refused the second time. -/
def BatchAction.Whole (ids : List TaskId) (T : Table) : BatchAction → Prop
  | .retry _ => (∀ i ∈ ids.head?, ∀ t ∈ T.get i, t.state ≠ .failed) ∨
      (ids.Nodup ∧ ∀ i ∈ ids, ∀ t ∈ T.get i, t.state = .failed)
  | _ => True

/-! ## Check, then write -/

namespace Records

variable {T T' : Table} {ids : List TaskId} {i : TaskId} {t : Task} {s : TaskState}
  {r : Except TaskError Unit}

theorem checkTransition_ok : checkTransition s T ids = .ok () ↔
    ∀ i ∈ ids, ∃ t, T.get i = some t ∧ s ∈ allowedTransitions t.state := by
  induction ids with
  | nil => simp [checkTransition]
  | cons id ids ih =>
    unfold checkTransition
    rw [List.forall_mem_cons, ← ih]
    constructor
    · intro h
      cases hid : T.get id with
      | none => rw [hid] at h; cases h
      | some t =>
        rw [hid] at h
        obtain ⟨_, hs, h⟩ := bind_ok h
        exact ⟨⟨t, rfl, GenericTaskQueue.checkTransition_ok.1 hs⟩, h⟩
    · rintro ⟨⟨t, ht, hs⟩, h⟩
      rw [ht]
      show (GenericTaskQueue.checkTransition s t).bind _ = _
      rw [GenericTaskQueue.checkTransition_ok.2 hs]
      exact h

theorem checkTransition_cases (s : TaskState) (T : Table) (ids : List TaskId) :
    (∃ e, checkTransition s T ids = .error e) ∨ (checkTransition s T ids = .ok () ∧
      ∀ i ∈ ids, ∃ t, T.get i = some t ∧ s ∈ allowedTransitions t.state) := by
  cases h : checkTransition s T ids with
  | error e => exact .inl ⟨e, rfl⟩
  | ok _ => exact .inr ⟨rfl, checkTransition_ok.1 h⟩

theorem get_updateAll_mem {f : Task → Task} (hi : i ∈ ids) (ht : T.get i = some t)
    (hf : (f t).id = t.id) : (T.updateAll ids f).get i = some (f t) := by
  obtain ⟨-, rfl⟩ := Table.get_eq_some_iff.1 ht
  rw [Table.get_updateAll, ht, Option.map_some, if_pos hi, ← hf]

theorem get_updateAll_of_not_mem {f : Task → Task} (hi : i ∉ ids) :
    (T.updateAll ids f).get i = T.get i := by
  rw [Table.get_updateAll]
  simp [hi]

theorem transition_spec {a : BatchAction} {f : Task → Task}
    (ha : ∀ t, a.onTask t = do GenericTaskQueue.checkTransition s t; return f t)
    (hf : ∀ t, (f t).id = t.id) (h : transition s f ids T = (T', r)) :
    AllOrNothing a ids T T' r := by
  unfold transition at h
  rcases checkTransition_cases s T ids with ⟨e, he⟩ | ⟨hok, hall⟩
  · rw [he] at h
    obtain ⟨rfl, rfl⟩ := Prod.mk.inj h
    exact ⟨fun _ _ _ => rfl, nofun⟩
  · rw [hok] at h
    obtain ⟨rfl, rfl⟩ := Prod.mk.inj h
    refine ⟨nofun, fun _ i hi => ?_⟩
    obtain ⟨t, ht, hs⟩ := hall i hi
    exact ⟨t, f t, ht, by rw [ha, checked_of_mem hs], get_updateAll_mem hi ht (hf t)⟩

/-! ## The cascade -/

theorem mem_activeChildren : i ∈ activeChildren T ids ↔
    ∃ t ∈ T.rows, t.id = i ∧ (∃ p ∈ ids, t.parentId = some p) ∧ t.state ∈ activeStates := by
  simp only [activeChildren, List.mem_dedup, List.mem_map, List.mem_filter, List.mem_flatMap,
    Table.mem_children, decide_eq_true_eq]
  constructor
  · rintro ⟨t, ⟨⟨p, hp, ht, hpar⟩, ha⟩, rfl⟩
    exact ⟨t, ht, rfl, ⟨p, hp, hpar⟩, ha⟩
  · rintro ⟨t, ht, rfl, ⟨p, hp, hpar⟩, ha⟩
    exact ⟨t, ⟨⟨p, hp, ht, hpar⟩, ha⟩, rfl⟩

theorem active_cancellable {s : TaskState} (h : s ∈ activeStates) :
    .cancelled ∈ allowedTransitions s := by
  revert h
  cases s <;> decide

theorem activeChildren_get (h : i ∈ activeChildren T ids) :
    ∃ t, T.get i = some t ∧ t.state ∈ activeStates := by
  obtain ⟨t, ht, rfl, -, ha⟩ := mem_activeChildren.1 h
  exact ⟨t, Table.mem_iff_get.1 ht, ha⟩

/-- What a call of `action_cancel` does that passes its check: it cancels the tasks of the recordset
and active tasks below them, each in one call. -/
structure Cascade (now : ℕ) (ids : List TaskId) (T : Table) (c : CancelCall) : Prop where
  ok : c.result = .ok ()
  first : ∃ calls, c.calls = ids :: calls
  row : ∀ i, c.table.get i =
    (T.get i).map fun t => if i ∈ c.calls.flatten then t.cancelledAt now else t
  active : ∀ i ∈ c.calls.flatten, i ∉ ids → ∃ t, T.get i = some t ∧ t.state ∈ activeStates
  once : ids.Nodup → c.calls.flatten.Nodup

theorem cancelled_row (now : ℕ) (ids : List TaskId) (T : Table) (i : TaskId) :
    (T.updateAll ids (Task.cancelledAt now)).get i =
      (T.get i).map fun t => if i ∈ ids then t.cancelledAt now else t := by
  cases ht : T.get i with
  | none => rw [Table.get_updateAll, ht]; rfl
  | some t =>
    by_cases hi : i ∈ ids
    · rw [get_updateAll_mem hi ht rfl]; simp [hi]
    · rw [get_updateAll_of_not_mem hi, ht]; simp [hi]

theorem Cascade.leaf (now : ℕ) (ids : List TaskId) (T : Table) :
    Cascade now ids T ⟨T.updateAll ids (Task.cancelledAt now), [ids], .ok ()⟩ where
  ok := rfl
  first := ⟨[], rfl⟩
  row i := by
    rw [List.flatten_singleton]
    exact cancelled_row now ids T i
  active i hi hn := by
    rw [List.flatten_singleton] at hi
    exact absurd hi hn
  once h := by
    rw [List.flatten_singleton]
    exact h

theorem Cascade.below {now : ℕ} {c : CancelCall}
    (h : Cascade now (activeChildren (T.updateAll ids (Task.cancelledAt now)) ids)
      (T.updateAll ids (Task.cancelledAt now)) c) :
    Cascade now ids T { c with calls := ids :: c.calls } := by
  -- whatever is called below is active, so it is none of the tasks cancelled already
  have hbelow : ∀ i ∈ c.calls.flatten, i ∉ ids ∧ ∃ t, T.get i = some t ∧
      t.state ∈ activeStates := by
    intro i hi
    have ha : ∃ t, (T.updateAll ids (Task.cancelledAt now)).get i = some t ∧
        t.state ∈ activeStates := by
      by_cases hc : i ∈ activeChildren (T.updateAll ids (Task.cancelledAt now)) ids
      · exact activeChildren_get hc
      · exact h.active i hi hc
    obtain ⟨t, ht, hs⟩ := ha
    rw [cancelled_row] at ht
    obtain ⟨u, hu, rfl⟩ := Option.map_eq_some_iff.1 ht
    by_cases hid : i ∈ ids
    · rw [if_pos hid] at hs
      exact absurd hs (show TaskState.cancelled ∉ activeStates by decide)
    · rw [if_neg hid] at hs
      exact ⟨hid, u, hu, hs⟩
  refine ⟨h.ok, ⟨c.calls, rfl⟩, fun i => ?_, fun i hi hn => ?_, fun hids => ?_⟩
  · show c.table.get i = _
    rw [h.row, cancelled_row, Option.map_map, List.flatten_cons]
    refine congrArg (fun f => (T.get i).map f) (funext fun t => ?_)
    by_cases hi : i ∈ ids <;> by_cases hc : i ∈ c.calls.flatten <;>
      simp [hi, hc, Task.cancelledAt]
  · rw [List.flatten_cons] at hi
    exact (hbelow i ((List.mem_append.1 hi).resolve_left hn)).2
  · rw [List.flatten_cons, List.nodup_append]
    refine ⟨hids, h.once (List.nodup_dedup _), fun i hi j hj he => ?_⟩
    subst he
    exact (hbelow i hj).1 hi

/-- **Cascade.** A call of `action_cancel` that passes its check does not raise further down. -/
theorem actionCancel_cascade {now n : ℕ} {c : CancelCall}
    (hall : ∀ i ∈ ids, ∃ t, T.get i = some t ∧ .cancelled ∈ allowedTransitions t.state)
    (h : actionCancel now n ids T = some c) : Cascade now ids T c := by
  induction n generalizing ids T c with
  | zero => cases h
  | succ n ih =>
    unfold actionCancel at h
    rw [checkTransition_ok.2 hall] at h
    dsimp only at h
    split_ifs at h with hnil
    · obtain rfl := Option.some.inj h
      exact .leaf now ids T
    · obtain ⟨c, hc, rfl⟩ := Option.map_eq_some_iff.1 h
      refine (ih (fun i hi => ?_) hc).below
      obtain ⟨t, ht, ha⟩ := activeChildren_get hi
      exact ⟨t, ht, active_cancellable ha⟩

theorem actionCancel_cases {now n : ℕ} {c : CancelCall} (h : actionCancel now n ids T = some c) :
    (∃ e, c = ⟨T, [ids], .error e⟩) ∨
    ((∀ i ∈ ids, ∃ t, T.get i = some t ∧ .cancelled ∈ allowedTransitions t.state) ∧
      Cascade now ids T c) := by
  rcases checkTransition_cases .cancelled T ids with ⟨e, he⟩ | ⟨-, hall⟩
  · cases n with
    | zero => cases h
    | succ n =>
      unfold actionCancel at h
      rw [he] at h
      exact .inl ⟨e, (Option.some.inj h).symm⟩
  · exact .inr ⟨hall, actionCancel_cascade hall h⟩

def activeTasks (T : Table) : List Task := T.rows.filter (·.state ∈ activeStates)

theorem activeTasks_updateAll (now : ℕ) (ids : List TaskId) (T : Table) :
    activeTasks (T.updateAll ids (Task.cancelledAt now)) =
      (activeTasks T).filter fun t => t.id ∉ ids := by
  unfold activeTasks
  show ((T.rows.map _).filter _) = _
  induction T.rows with
  | nil => rfl
  | cons t rows ih =>
    rw [List.map_cons, List.filter_cons, ih]
    by_cases hid : t.id ∈ ids
    · have hc : TaskState.cancelled ∉ activeStates := by decide
      by_cases ha : t.state ∈ activeStates <;> simp [hid, ha, hc, Task.cancelledAt]
    · by_cases ha : t.state ∈ activeStates <;> simp [hid, ha]

/-- Each level of the cascade cancels an active task. -/
theorem activeTasks_lt {now : ℕ} (h : activeChildren T ids ≠ []) :
    (activeTasks (T.updateAll (activeChildren T ids) (Task.cancelledAt now))).length <
      (activeTasks T).length := by
  obtain ⟨i, hi⟩ := List.exists_mem_of_ne_nil _ h
  obtain ⟨t, ht, rfl, -, ha⟩ := mem_activeChildren.1 hi
  rw [activeTasks_updateAll]
  refine List.length_filter_lt_length_iff_exists.2 ⟨t, ?_, by simpa using hi⟩
  exact List.mem_filter.2 ⟨ht, by simpa using ha⟩

/-- The recursion ends: it is not deeper than there are tasks left that are active. -/
theorem actionCancel_some {now n : ℕ} :
    (activeTasks (T.updateAll ids (Task.cancelledAt now))).length < n →
      ∃ c, actionCancel now n ids T = some c := by
  induction n generalizing ids T with
  | zero => intro h; exact absurd h (Nat.not_lt_zero _)
  | succ n ih =>
    intro h
    unfold actionCancel
    rcases checkTransition_cases .cancelled T ids with ⟨e, he⟩ | ⟨hok, -⟩
    · rw [he]
      exact ⟨_, rfl⟩
    · rw [hok]
      dsimp only
      split_ifs with hnil
      · exact ⟨_, rfl⟩
      · obtain ⟨c, hc⟩ := ih (Nat.lt_of_lt_of_le (activeTasks_lt hnil) (Nat.le_of_lt_succ h))
        exact ⟨_, by rw [hc]; rfl⟩

theorem actionCancel_mono {now n m : ℕ} {c : CancelCall} (hm : n ≤ m)
    (h : actionCancel now n ids T = some c) : actionCancel now m ids T = some c := by
  induction n generalizing ids T c m with
  | zero => cases h
  | succ n ih =>
    obtain ⟨m, rfl⟩ : ∃ k, m = k + 1 := ⟨m - 1, by omega⟩
    unfold actionCancel at h ⊢
    rcases checkTransition_cases .cancelled T ids with ⟨e, he⟩ | ⟨hok, -⟩
    · rw [he] at h ⊢
      exact h
    · rw [hok] at h ⊢
      dsimp only at h ⊢
      split_ifs at h ⊢ with hnil
      · exact h
      · obtain ⟨c, hc, rfl⟩ := Option.map_eq_some_iff.1 h
        rw [ih (by omega) hc]
        rfl

theorem actionCancel_total (now : ℕ) (ids : List TaskId) (T : Table) :
    ∃ c, ∀ n, T.rows.length < n → actionCancel now n ids T = some c := by
  have hle : (activeTasks (T.updateAll ids (Task.cancelledAt now))).length ≤ T.rows.length := by
    refine Nat.le_trans (List.length_filter_le _ _) ?_
    exact Nat.le_of_eq (List.length_map _)
  obtain ⟨c, hc⟩ := actionCancel_some (Nat.lt_succ_of_le hle)
  exact ⟨c, fun n hn => actionCancel_mono hn hc⟩

/-! ## Record by record -/

theorem actionRetry_cases {eta : Option ℕ} {id : TaskId}
    (h : actionRetry eta (id :: ids) T = (T', r)) :
    (∃ t t', T.get id = some t ∧ t.state = .failed ∧ GenericTaskQueue.actionRetry eta t = .ok t' ∧
      t'.id = id ∧ t'.state = .pending ∧ actionRetry eta ids (T.update id fun _ => t') = (T', r)) ∨
    ((∀ t ∈ T.get id, t.state ≠ .failed) ∧ T' = T ∧ ∃ e, r = .error e) := by
  unfold actionRetry at h
  cases hid : T.get id with
  | none =>
    rw [hid] at h
    obtain ⟨rfl, rfl⟩ := Prod.mk.inj h
    exact .inr ⟨fun t ht => absurd ht (Option.not_mem_none t), rfl, _, rfl⟩
  | some t =>
    rw [hid] at h
    dsimp only at h
    cases ht : GenericTaskQueue.actionRetry eta t with
    | error e =>
      rw [ht] at h
      obtain ⟨rfl, rfl⟩ := Prod.mk.inj h
      refine .inr ⟨fun u hu hf => ?_, rfl, _, rfl⟩
      obtain rfl := Option.some.inj hu
      unfold GenericTaskQueue.actionRetry at ht
      rw [if_pos hf] at ht
      cases ht
    | ok t' =>
      rw [ht] at h
      obtain ⟨hf, rfl⟩ := actionRetry_ok ht
      exact .inl ⟨t, _, rfl, hf, ht, (Table.get_eq_some_iff.1 hid).2, rfl, h⟩

theorem actionRetry_keeps {eta : Option ℕ} (h : actionRetry eta ids T = (T', r))
    (ht : T.get i = some t) (hs : t.state ≠ .failed) : T'.get i = some t := by
  induction ids generalizing T with
  | nil =>
    obtain ⟨rfl, -⟩ := Prod.mk.inj h
    exact ht
  | cons id ids ih =>
    rcases actionRetry_cases h with ⟨u, u', hu, hf, -, -, -, hrest⟩ | ⟨-, rfl, -⟩
    · have hne : i ≠ id := by
        rintro rfl
        obtain rfl := Option.some.inj (ht.symm.trans hu)
        exact hs hf
      exact ih hrest ((Table.get_update_of_ne hne).trans ht)
    · exact ht

theorem actionRetry_returns {eta : Option ℕ} (h : actionRetry eta ids T = (T', .ok ())) :
    ids.Nodup ∧ ∀ i ∈ ids, ∃ t t', T.get i = some t ∧ t.state = .failed ∧
      GenericTaskQueue.actionRetry eta t = .ok t' ∧ T'.get i = some t' := by
  induction ids generalizing T with
  | nil => exact ⟨List.nodup_nil, List.forall_mem_nil _⟩
  | cons id ids ih =>
    rcases actionRetry_cases h with ⟨t, t', ht, hf, hret, hid, hpend, hrest⟩ | ⟨-, -, e, he⟩
    · obtain ⟨hnd, hall⟩ := ih hrest
      have hself : (T.update id fun _ => t').get id = some t' := by
        rw [Table.get_update_self ht, ← hid]
      -- the record just written is pending, so it does not come again
      have hnot : id ∉ ids := by
        intro hm
        obtain ⟨u, -, hu, hfu, -⟩ := hall id hm
        obtain rfl := Option.some.inj (hself.symm.trans hu)
        rw [hpend] at hfu
        cases hfu
      refine ⟨List.nodup_cons.2 ⟨hnot, hnd⟩, List.forall_mem_cons.2 ⟨?_, fun i hi => ?_⟩⟩
      · exact ⟨t, t', ht, hf, hret, actionRetry_keeps hrest hself (by rw [hpend]; decide)⟩
      · obtain ⟨u, u', hu, hfu, hretu, hu'⟩ := hall i hi
        have hne : i ≠ id := fun he => hnot (he ▸ hi)
        exact ⟨u, u', (Table.get_update_of_ne hne).symm.trans hu, hfu, hretu, hu'⟩
    · cases he

theorem actionRetry_all {eta : Option ℕ} (hnd : ids.Nodup)
    (hall : ∀ i ∈ ids, ∃ t, T.get i = some t ∧ t.state = .failed)
    (h : actionRetry eta ids T = (T', r)) : r = .ok () := by
  induction ids generalizing T with
  | nil => exact (Prod.mk.inj h).2.symm
  | cons id ids ih =>
    obtain ⟨hnot, hnd⟩ := List.nodup_cons.1 hnd
    rcases actionRetry_cases h with ⟨-, t', -, -, -, -, -, hrest⟩ | ⟨hn, -, -⟩
    · refine ih hnd (fun i hi => ?_) hrest
      have hne : i ≠ id := fun he => hnot (he ▸ hi)
      rw [Table.get_update_of_ne hne]
      exact hall i (List.mem_cons_of_mem _ hi)
    · obtain ⟨t, ht, hf⟩ := hall id List.mem_cons_self
      exact absurd hf (hn t ht)

/-- **Record by record.** -/
theorem actionRetry_spec {eta : Option ℕ} (hids : ∀ i ∈ ids, (T.get i).isSome = true)
    (h : actionRetry eta ids T = (T', r)) :
    AllOrNothing (.retry eta) ids T T' r ↔ (BatchAction.retry eta).Whole ids T := by
  constructor
  · intro hw
    cases r with
    | ok _ =>
      obtain ⟨hnd, hall⟩ := actionRetry_returns h
      refine .inr ⟨hnd, fun i hi t ht => ?_⟩
      obtain ⟨u, -, hu, hf, -⟩ := hall i hi
      obtain rfl := Option.some.inj (ht.symm.trans hu)
      exact hf
    | error e =>
      -- a first record that is failed would have been written
      refine .inl fun i hi t ht hf => ?_
      obtain ⟨ids, rfl⟩ : ∃ l, ids = i :: l := ⟨ids.tail, (List.cons_head?_tail hi).symm⟩
      rcases actionRetry_cases h with ⟨u, u', hu, -, -, hid, hpend, hrest⟩ | ⟨hn, -⟩
      · have hself : (T.update i fun _ => u').get i = some u' := by
          rw [Table.get_update_self hu, ← hid]
        have hkept := actionRetry_keeps hrest hself (by rw [hpend]; decide)
        rw [hw.nothing e rfl i, ht] at hkept
        obtain rfl := Option.some.inj hkept
        rw [hpend] at hf
        cases hf
      · exact hn t ht hf
  · rintro (hfirst | ⟨hnd, hall⟩)
    · cases ids with
      | nil =>
        obtain ⟨rfl, rfl⟩ := Prod.mk.inj h
        exact ⟨nofun, fun _ => List.forall_mem_nil _⟩
      | cons id ids =>
        rcases actionRetry_cases h with ⟨t, -, ht, hf, -⟩ | ⟨-, rfl, e, rfl⟩
        · exact absurd hf (hfirst id rfl t ht)
        · exact ⟨fun _ _ _ => rfl, nofun⟩
    · have hr : r = .ok () := by
        refine actionRetry_all hnd (fun i hi => ?_) h
        obtain ⟨t, ht⟩ := Option.isSome_iff_exists.1 (hids i hi)
        exact ⟨t, ht, hall i hi t ht⟩
      subst hr
      refine ⟨nofun, fun _ i hi => ?_⟩
      obtain ⟨t, t', ht, -, hret, ht'⟩ := (actionRetry_returns h).2 i hi
      exact ⟨t, t', ht, hret, ht'⟩

end Records

/-! ## The result -/

/-- A call of `action_cancel` is all or nothing, whatever is below the tasks. -/
theorem cancel_allOrNothing {now n : ℕ} {ids : List TaskId} {T : Table} {c : CancelCall}
    (h : Records.actionCancel now n ids T = some c) :
    AllOrNothing (.cancel now) ids T c.table c.result := by
  rcases Records.actionCancel_cases h with ⟨e, rfl⟩ | ⟨hall, hc⟩
  · exact ⟨fun _ _ _ => rfl, nofun⟩
  · refine ⟨fun e he => ?_, fun _ i hi => ?_⟩
    · rw [hc.ok] at he
      cases he
    · obtain ⟨t, ht, hs⟩ := hall i hi
      obtain ⟨calls, hcalls⟩ := hc.first
      have hmem : i ∈ c.calls.flatten := by
        rw [hcalls, List.flatten_cons]
        exact List.mem_append_left _ hi
      refine ⟨t, t.cancelledAt now, ht, checked_of_mem hs, ?_⟩
      rw [hc.row, ht, Option.map_some, if_pos hmem]

/-- **All or nothing.** Every call of an action on a recordset ends. One that raises has left every
task as it was, and one that returns has taken every task of the recordset through the transition,
with the exception of `action_retry` where it refuses a record after one that it has written. -/
theorem batch_all_or_nothing_iff (a : BatchAction) {ids : List TaskId} {T : Table}
    (hids : ∀ i ∈ ids, (T.get i).isSome = true) :
    ∃ T' r, (∀ n, T.rows.length < n → a.call n ids T = some (T', r)) ∧
      (AllOrNothing a ids T T' r ↔ a.Whole ids T) := by
  cases a with
  | assign _ | start _ | stuck | done _ _ | waitChildren =>
    -- one check of all tasks, and one write
    exact ⟨_, _, fun _ _ => rfl, iff_of_true
      (Records.transition_spec (fun _ => rfl) (fun _ => rfl) (Prod.mk.eta).symm) trivial⟩
  | cancel now =>
    obtain ⟨c, hc⟩ := Records.actionCancel_total now ids T
    refine ⟨c.table, c.result, fun n hn => ?_, iff_of_true ?_ trivial⟩
    · show (Records.actionCancel now n ids T).map _ = _
      rw [hc n hn]
      rfl
    · exact cancel_allOrNothing (hc _ (Nat.lt_succ_self _))
  | retry eta =>
    exact ⟨_, _, fun _ _ => rfl, Records.actionRetry_spec hids (Prod.mk.eta).symm⟩

/-- A failed task, and a task that is done. -/
def failedAndDone : Table where
  rows := [
    { id := 1, name := "export", typeCode := "export", state := .failed
      taskError := some "boom", dateCreated := 10, createUid := 2 },
    { id := 2, name := "import", typeCode := "import", state := .done, dateCreated := 11
      createUid := 2 }]
  nodup := by simp

/-- The refused task comes first: nothing is written. -/
theorem done_first_refused : ∃ T' r, (∀ n, 2 < n →
      (BatchAction.retry none).call n [2, 1] failedAndDone = some (T', r)) ∧
    AllOrNothing (.retry none) [2, 1] failedAndDone T' r := by
  obtain ⟨T', r, h, hiff⟩ := @batch_all_or_nothing_iff (.retry none) [2, 1]
    failedAndDone (by decide)
  refine ⟨T', r, h, hiff.2 (.inl fun i hi t ht => ?_)⟩
  obtain rfl := Option.some.inj hi
  obtain rfl := Option.some.inj ht
  decide

/-- `action_retry` raises, and the first task has been put back to `pending`. -/
theorem retry_half_done : ∃ T' e, (∀ n, (BatchAction.retry none).call n [1, 2] failedAndDone =
      some (T', .error e)) ∧
    (T'.get 1).map Task.state = some .pending ∧
    ¬ AllOrNothing (.retry none) [1, 2] failedAndDone T' (.error e) := by
  refine ⟨_, _, fun _ => rfl, rfl, fun h => ?_⟩
  have hrow := h.nothing _ rfl 1
  exact absurd (congrArg (fun o => o.map Task.state) hrow) (by decide)

end GenericTaskQueue
