import GenericBackground.Lib.Query
import GenericBackground.TaskQueue.Task
import Mathlib.Data.List.Nodup
import Mathlib.Data.List.Range
import Mathlib.Order.Lattice
import Mathlib.Order.Nat

/-!
# The task table

The rows of `generic_task_queue_task` as a transaction without foreign locks sees them. The
primary key is a field of the structure: a table with two rows of one id cannot be built, and
every operation hands out a table again.
-/

namespace GenericTaskQueue

open Query

/-- `_order`: priority, then date of creation. -/
def keyLE (a b : Task) : Prop :=
  a.priority < b.priority ∨ (a.priority = b.priority ∧ a.dateCreated ≤ b.dateCreated)

instance : DecidableRel keyLE := fun _ _ => by unfold keyLE; infer_instance

theorem keyLE_total (a b : Task) : keyLE a b ∨ keyLE b a := by unfold keyLE; omega

theorem keyLE_trans {a b c : Task} (h : keyLE a b) (h' : keyLE b c) : keyLE a c := by
  unfold keyLE at *; omega

instance : Std.Total keyLE := ⟨keyLE_total⟩

instance : IsTrans Task keyLE := ⟨fun _ _ _ => keyLE_trans⟩

/-- The rows of the table, in an arbitrary order, with distinct ids. -/
structure Table where
  rows : List Task
  nodup : (rows.map Task.id).Nodup
  deriving DecidableEq

namespace Table

def get (T : Table) (id : TaskId) : Option Task := T.rows.find? fun t => t.id = id

/-- `child_ids`, in the order of the model. -/
def children (T : Table) (id : TaskId) : List Task :=
  select keyLE (fun t => t.parentId = some id) T.rows

def updateAll (T : Table) (ids : List TaskId) (f : Task → Task) : Table where
  rows := T.rows.map fun t => if t.id ∈ ids then { f t with id := t.id } else t
  nodup := by
    have h : (fun t : Task => if t.id ∈ ids then { f t with id := t.id } else t) =
        fun t : Task => { (if t.id ∈ ids then f t else t) with id := t.id } := by
      funext t; split_ifs <;> rfl
    rw [h, List.map_map]
    exact T.nodup

def update (T : Table) (id : TaskId) (f : Task → Task) : Table := T.updateAll [id] f

/-- An action called on one record. -/
def modify (T : Table) (id : TaskId) (f : Task → Except TaskError Task) : Except TaskError Table :=
  match T.get id with
  | none => .ok T
  | some t => (f t).map fun t' => T.update id fun _ => t'

/-- The records that `action_cancel` on `ids` reaches: their active children, level by level. A
record visited is no longer active, so it is visited once. -/
def cancelled : ℕ → List Task → List TaskId → List TaskId
  | 0, _, ids => ids
  | fuel + 1, rows, ids =>
    let rest := rows.filter (·.id ∉ ids)
    let next := rest.filter fun t => t.parentId.any (· ∈ ids) ∧ t.state ∈ activeStates
    ids ++ if next = [] then [] else cancelled fuel rest (next.map Task.id)

/-- `action_cancel`: the record, then of its active children those that the caller `sees`. -/
def actionCancel (sees : Task → Bool) (T : Table) (now : ℕ) (id : TaskId) :
    Except TaskError Table :=
  match T.get id with
  | none => .ok T
  | some t => (checkTransition .cancelled t).map fun _ =>
    T.updateAll (cancelled T.rows.length (T.rows.filter sees) [id]) fun t =>
      { t with state := .cancelled, dateCompleted := some now }

theorem actionCancel_ok {sees : Task → Bool} {T T' : Table} {now : ℕ} {id : TaskId} {t : Task}
    (ht : T.get id = some t) (h : T.actionCancel sees now id = .ok T') :
    .cancelled ∈ allowedTransitions t.state ∧
      T' = T.updateAll (cancelled T.rows.length (T.rows.filter sees) [id])
        fun t => { t with state := .cancelled, dateCompleted := some now } := by
  unfold actionCancel at h
  rw [ht] at h
  obtain ⟨_, hs, rfl⟩ := map_ok h
  exact ⟨checkTransition_ok.1 hs, rfl⟩

theorem actionCancel_none {sees : Task → Bool} {T T' : Table} {now : ℕ} {id : TaskId}
    (ht : T.get id = none) (h : T.actionCancel sees now id = .ok T') : T' = T := by
  unfold actionCancel at h
  rw [ht] at h
  exact (Except.ok.inj h).symm

/-- The next value of the id sequence: beyond every id the table mentions. -/
def nextId (T : Table) : TaskId :=
  (T.rows.map Task.id ++ T.rows.filterMap Task.parentId).foldr max 0 + 1

theorem lt_nextId_of_mem {T : Table} {a : TaskId}
    (h : a ∈ T.rows.map Task.id ++ T.rows.filterMap Task.parentId) : a < T.nextId := by
  unfold nextId
  generalize T.rows.map Task.id ++ T.rows.filterMap Task.parentId = l at h
  induction l with
  | nil => exact absurd h List.not_mem_nil
  | cons b l ih =>
    rw [List.foldr_cons]
    rcases List.mem_cons.1 h with rfl | h
    · exact Nat.lt_succ_of_le (le_max_left _ _)
    · exact lt_of_lt_of_le (ih h) (Nat.succ_le_succ (le_max_right _ _))

theorem lt_nextId {T : Table} {t : Task} (h : t ∈ T.rows) : t.id < T.nextId :=
  lt_nextId_of_mem (List.mem_append_left _ (List.mem_map_of_mem h))

theorem parent_lt_nextId {T : Table} {t : Task} {p : TaskId} (h : t ∈ T.rows)
    (hp : t.parentId = some p) : p < T.nextId :=
  lt_nextId_of_mem (List.mem_append_right _ (List.mem_filterMap.2 ⟨t, h, hp⟩))

/-- `INSERT`: the new rows take the next ids of the sequence. -/
def insert (T : Table) (new : List Task) : Table where
  rows := T.rows ++ new.zipIdx.map fun p => { p.1 with id := T.nextId + p.2 }
  nodup := by
    rw [List.map_append, List.map_map, List.nodup_append]
    refine ⟨T.nodup, ?_, ?_⟩
    · show (new.zipIdx.map fun p => T.nextId + p.2).Nodup
      have h : (new.zipIdx.map fun p => T.nextId + p.2) =
          (List.range' 0 new.length).map (T.nextId + ·) := by
        rw [← List.zipIdx_map_snd 0 new, List.map_map]
        rfl
      rw [h]
      exact (List.nodup_range' (s := 0)).map fun a b hab => Nat.add_left_cancel hab
    · intro a ha b hb hab
      obtain ⟨t, ht, rfl⟩ := List.mem_map.1 ha
      obtain ⟨p, _, rfl⟩ := List.mem_map.1 hb
      have hlt : t.id < T.nextId := lt_nextId ht
      rw [hab] at hlt
      exact absurd hlt (Nat.not_lt_of_le (Nat.le_add_right _ _))

/-! ## Reading the table back -/

theorem eq_of_id {T : Table} {t u : Task} (ht : t ∈ T.rows) (hu : u ∈ T.rows)
    (h : t.id = u.id) : t = u := List.inj_on_of_nodup_map T.nodup ht hu h

theorem get_eq_some_iff {T : Table} {id : TaskId} {t : Task} :
    T.get id = some t ↔ t ∈ T.rows ∧ t.id = id := by
  unfold get
  constructor
  · intro h
    exact ⟨List.mem_of_find?_eq_some h, by simpa using List.find?_some h⟩
  · rintro ⟨h, rfl⟩
    obtain ⟨u, hu⟩ := Option.isSome_iff_exists.1
      (List.find?_isSome (p := fun u : Task => decide (u.id = t.id)) |>.2 ⟨t, h, by simp⟩)
    rw [hu, eq_of_id (List.mem_of_find?_eq_some hu) h (by simpa using List.find?_some hu)]

theorem mem_children {T : Table} {id : TaskId} {t : Task} :
    t ∈ T.children id ↔ t ∈ T.rows ∧ t.parentId = some id := by
  unfold children
  rw [mem_select, decide_eq_true_eq]

theorem mem_insert {T : Table} {new : List Task} {t : Task} : t ∈ (T.insert new).rows ↔
    t ∈ T.rows ∨ ∃ p ∈ new.zipIdx, t = { p.1 with id := T.nextId + p.2 } := by
  unfold insert
  rw [List.mem_append, List.mem_map]
  simp only [eq_comm]

theorem get_none_iff {T : Table} {id : TaskId} : T.get id = none ↔ ∀ t ∈ T.rows, t.id ≠ id := by
  unfold get
  simp

theorem get_updateAll (T : Table) (ids : List TaskId) (f : Task → Task) (id : TaskId) :
    (T.updateAll ids f).get id =
      (T.get id).map fun t => if id ∈ ids then { f t with id := id } else t := by
  rcases h : T.get id with _ | t
  · rw [Option.map_none, get_none_iff]
    intro u hu
    obtain ⟨v, hv, rfl⟩ := List.mem_map.1 hu
    have := get_none_iff.1 h v hv
    split_ifs <;> exact this
  · obtain ⟨ht, rfl⟩ := get_eq_some_iff.1 h
    rw [Option.map_some, get_eq_some_iff]
    refine ⟨List.mem_map.2 ⟨t, ht, rfl⟩, ?_⟩
    split_ifs <;> rfl

theorem mem_updateAll_of_not_mem {T : Table} {ids : List TaskId} {f : Task → Task} {t : Task}
    (h : t.id ∉ ids) : t ∈ (T.updateAll ids f).rows ↔ t ∈ T.rows := by
  constructor
  · intro ht
    obtain ⟨u, hu, rfl⟩ := List.mem_map.1 ht
    by_cases hid : u.id ∈ ids
    · rw [if_pos hid] at h; exact absurd hid h
    · rwa [if_neg hid]
  · exact fun ht => List.mem_map.2 ⟨t, ht, if_neg h⟩

theorem get_update_self {T : Table} {id : TaskId} {f : Task → Task} {t : Task}
    (h : T.get id = some t) : (T.update id f).get id = some { f t with id := id } := by
  unfold update
  rw [get_updateAll, h, Option.map_some, if_pos (List.mem_singleton_self id)]

theorem get_update_of_ne {T : Table} {id id' : TaskId} {f : Task → Task} (h : id' ≠ id) :
    (T.update id f).get id' = T.get id' := by
  unfold update
  rw [get_updateAll]
  simp [h]

theorem get_insert {T : Table} {new : List Task} {id : TaskId} {t : Task}
    (h : T.get id = some t) : (T.insert new).get id = some t := by
  obtain ⟨ht, hid⟩ := get_eq_some_iff.1 h
  exact get_eq_some_iff.2 ⟨mem_insert.2 (.inl ht), hid⟩

theorem modify_eq {T : Table} {id : TaskId} {f : Task → Except TaskError Task} {t t' : Task}
    (ht : T.get id = some t) (hf : f t = .ok t') :
    T.modify id f = .ok (T.update id fun _ => t') := by
  unfold modify
  simp only [ht, hf]
  rfl

theorem modify_ok {T T' : Table} {id : TaskId} {f : Task → Except TaskError Task} {t : Task}
    (ht : T.get id = some t) (h : T.modify id f = .ok T') :
    ∃ t', f t = .ok t' ∧ T' = T.update id fun _ => t' := by
  unfold modify at h
  rw [ht] at h
  cases hf : f t with
  | error e => simp only [hf] at h; cases h
  | ok t' => simp only [hf] at h; exact ⟨t', rfl, (Except.ok.inj h).symm⟩

theorem mem_iff_get {T : Table} {t : Task} : t ∈ T.rows ↔ T.get t.id = some t := by
  rw [get_eq_some_iff, and_iff_left rfl]

theorem mem_cancelled {fuel : ℕ} {rows : List Task} {ids : List TaskId} {i : TaskId} (h : i ∈ ids) :
    i ∈ cancelled fuel rows ids := by
  cases fuel with
  | zero => exact h
  | succ fuel => exact List.mem_append_left _ h

/-- `action_cancel` stays inside a set of records that is closed under active children. -/
theorem cancelled_subset {S : TaskId → Prop} : ∀ {fuel : ℕ} {rows : List Task} {ids : List TaskId},
    (∀ t ∈ rows, ∀ p, t.parentId = some p → S p → t.state ∈ activeStates → S t.id) →
    (∀ i ∈ ids, S i) → ∀ i ∈ cancelled fuel rows ids, S i := by
  intro fuel
  induction fuel with
  | zero => intro rows ids _ hids; exact hids
  | succ fuel ih =>
    intro rows ids hS hids i hi
    unfold cancelled at hi
    rcases List.mem_append.1 hi with hi | hi
    · exact hids i hi
    · split_ifs at hi
      · exact absurd hi List.not_mem_nil
      · refine ih (fun t ht => hS t (List.mem_of_mem_filter ht)) (fun j hj => ?_) i hi
        obtain ⟨t, ht, rfl⟩ := List.mem_map.1 hj
        obtain ⟨ht, hp⟩ := List.mem_filter.1 ht
        simp only [decide_eq_true_eq, Option.any_eq_true] at hp
        obtain ⟨⟨p, hp, hpi⟩, ha⟩ := hp
        exact hS t (List.mem_of_mem_filter ht) p hp (hids p hpi) ha

end Table

end GenericTaskQueue
