import GenericBackground.TaskQueue.BatchActions
import GenericBackground.TaskQueue.Progress
import GenericBackground.TaskQueue.ProtectedFields
import GenericBackground.TaskQueue.TaskSpecs
import GenericBackground.TaskQueue.Vacuum
import Mathlib.Data.List.Chain

/-!
# Recursions over the tree of tasks

`action_cancel` goes down to the children and `_propagate_progress_upward` goes up to the parents,
with no limit on the depth and no check for cycles. There are no cycles: a task gets its parent when
it is inserted, and never another one, so the id of a parent is smaller than those of its children
(`TreeInv`).

* The walk up descends in the ids, so it ends (`propagate_total`), and it takes the ancestors one
  by one until one of its four queries stops it (`propagate_chain`).
* The cascade down cancels active tasks, of which there are fewer with each level, so it ends on any
  table (`Records.actionCancel_total`).
-/

namespace GenericTaskQueue

open Lts RowStore

/-! ## Creating tasks -/

/-- The ways to create tasks; and whatever else happens to them. -/
inductive CreationEv where
  | create (E : Env) (uid : UserId) (ctx : Context)
      (valsList : List (ClientVals × Option Commands))
  | createTask (E : Env) (uid : UserId) (c : CreateArgs)
  | createTasks (E : Tools.TypeEnv) (uid : UserId) (specs : List Tools.PyValue)
      (typeCode paramsList : Tools.PyValue) (commonVals : Tools.Kwargs)
  | createChildren (E : Tools.TypeEnv) (parent : Task) (specs : List Tools.PyValue)
      (typeCode paramsList : Tools.PyValue) (commonVals : Tools.Kwargs)
  | life (reg : Registry) (ev : ForestEv)

/-- A parent that is named is there: `parent_id` is a foreign key. -/
def Table.hasParent (T : Table) (parentId : Option TaskId) : Bool :=
  parentId.all fun p => (T.get p).isSome

def creationStep (T : Table) : CreationEv → Option Table
  | .create E uid ctx valsList =>
    if (ctx.fill valsList).all fun r => T.hasParent r.1.parentId.join then
      (Rpc.create E uid ctx valsList T).toOption
    else none
  | .createTask E uid c =>
    if T.hasParent (c.parentId.filter (· ≠ 0)) then some (createTask E uid c T).1 else none
  | .createTasks E uid specs typeCode paramsList commonVals =>
    (Tools.createTasks E uid specs typeCode paramsList commonVals T).toOption
  | .createChildren E parent specs typeCode paramsList commonVals =>
    if T.hasParent (some parent.id) then
      (Tools.createChildren E parent specs typeCode paramsList commonVals T).toOption
    else none
  | .life reg ev => forestStep reg T ev

/-- Every parent is a task of the table, with a smaller id than its children. -/
structure TreeInv (T : Table) : Prop where
  ordered : Forest.Ordered Task.id Task.parentId T.rows
  parent : ∀ t ∈ T.rows, T.hasParent t.parentId = true

section Invariant

variable {T T' : Table} {ev : CreationEv}

theorem hasParent_iff {o : Option TaskId} :
    T.hasParent o = true ↔ ∀ p, o = some p → ∃ t ∈ T.rows, t.id = p := by
  unfold Table.hasParent
  cases o with
  | none => exact iff_of_true rfl nofun
  | some p =>
    show (T.get p).isSome = true ↔ _
    constructor
    · intro h q hq
      obtain rfl := Option.some.inj hq
      obtain ⟨t, ht⟩ := Option.isSome_iff_exists.1 h
      exact ⟨t, Table.get_eq_some_iff.1 ht⟩
    · intro h
      obtain ⟨t, ht, rfl⟩ := h p rfl
      rw [Table.mem_iff_get.1 ht]
      rfl

theorem TreeInv.empty : TreeInv Table.empty := ⟨List.forall_mem_nil _, List.forall_mem_nil _⟩

theorem TreeInv.insert (hi : TreeInv T) {new : List Task}
    (hnew : ∀ t ∈ new, T.hasParent t.parentId = true) : TreeInv (T.insert new) := by
  have keep : ∀ {o}, T.hasParent o = true → (T.insert new).hasParent o = true := by
    intro o ho
    refine hasParent_iff.2 fun p hp => ?_
    obtain ⟨t, ht, rfl⟩ := hasParent_iff.1 ho p hp
    exact ⟨t, Table.mem_insert.2 (.inl ht), rfl⟩
  refine ⟨fun t ht p hp => ?_, fun t ht => ?_⟩
  · rcases Table.mem_insert.1 ht with ht | ⟨x, hx, rfl⟩
    · exact hi.ordered t ht p hp
    · obtain ⟨u, hu, rfl⟩ := hasParent_iff.1 (hnew x.1 (List.fst_mem_of_mem_zipIdx hx)) p hp
      exact Nat.lt_of_lt_of_le (Table.lt_nextId hu) (Nat.le_add_right _ _)
  · rcases Table.mem_insert.1 ht with ht | ⟨x, hx, rfl⟩
    · exact keep (hi.parent t ht)
    · exact keep (hnew x.1 (List.fst_mem_of_mem_zipIdx hx))

theorem TreeInv.updateAll (hi : TreeInv T) {ids : List TaskId} {f : Task → Task}
    (hf : ∀ t ∈ T.rows, t.id ∈ ids → (f t).parentId = t.parentId) :
    TreeInv (T.updateAll ids f) := by
  have old : ∀ t ∈ (T.updateAll ids f).rows,
      ∃ u ∈ T.rows, t.id = u.id ∧ t.parentId = u.parentId := by
    intro t ht
    obtain ⟨u, hu, rfl⟩ := List.mem_map.1 ht
    refine ⟨u, hu, ?_⟩
    split_ifs with hid
    · exact ⟨rfl, hf u hu hid⟩
    · exact ⟨rfl, rfl⟩
  have keep : ∀ {o}, T.hasParent o = true → (T.updateAll ids f).hasParent o = true := by
    intro o ho
    unfold Table.hasParent at ho ⊢
    simpa only [Table.get_updateAll, Option.isSome_map] using ho
  refine ⟨fun t ht p hp => ?_, fun t ht => ?_⟩
  · obtain ⟨u, hu, hid, hpar⟩ := old t ht
    rw [hid]
    exact hi.ordered u hu p (hpar ▸ hp)
  · obtain ⟨u, hu, -, hpar⟩ := old t ht
    rw [hpar]
    exact keep (hi.parent u hu)

/-- A task that is left has a parent that is left: what is below a deleted task is deleted. -/
theorem TreeInv.unlink (hi : TreeInv T) (ids : List TaskId) : TreeInv (T.unlink ids) := by
  have mem : ∀ {t}, t ∈ (T.unlink ids).rows ↔ t ∈ T.rows ∧
      t.id ∉ Forest.closure Task.id Task.parentId T.rows.length T.rows ids := by
    intro t
    unfold Table.unlink
    simp only [List.mem_filter, decide_eq_true_eq]
  refine ⟨fun t ht => hi.ordered t (mem.1 ht).1, fun t ht => hasParent_iff.2 fun p hp => ?_⟩
  obtain ⟨ht, hkept⟩ := mem.1 ht
  obtain ⟨u, hu, rfl⟩ := hasParent_iff.1 (hi.parent t ht) p hp
  refine ⟨u, mem.2 ⟨hu, fun hdel => hkept ?_⟩, rfl⟩
  -- something was deleted, so one of `ids` was a task
  have hids : ∃ x ∈ T.rows, x.id ∈ ids := by
    by_contra hnone
    have hclosed : ∀ x ∈ T.rows, ∀ q, x.parentId = some q → q ∈ ids → x.id ∈ ids := by
      intro x hx q hq hqi
      obtain ⟨y, hy, rfl⟩ := hasParent_iff.1 (hi.parent x hx) q hq
      exact absurd ⟨y, hy, hqi⟩ hnone
    exact hnone ⟨u, hu, Forest.closure_subset (S := fun i => i ∈ ids) hclosed (fun _ h => h) _ hdel⟩
  exact Forest.closure_closed (Nat.le_refl _) hids ht hp hdel

theorem TreeInv.cancel (hi : TreeInv T) {sees : Task → Bool} {now : ℕ} {id : TaskId}
    (h : T.actionCancel sees now id = .ok T') : TreeInv T' := by
  cases ht : T.get id with
  | none =>
    obtain rfl := Table.actionCancel_none ht h
    exact hi
  | some t =>
    obtain ⟨-, rfl⟩ := Table.actionCancel_ok ht h
    exact hi.updateAll fun _ _ _ => rfl

theorem TreeInv.life {reg : Registry} {ev : ForestEv} (hi : TreeInv T)
    (h : forestStep reg T ev = some T') : TreeInv T' := by
  cases ev with
  | create v =>
    obtain ⟨hp, h⟩ := Option.ite_none_right_eq_some.1 h
    obtain rfl := Option.some.inj h
    refine hi.insert fun t ht => ?_
    obtain rfl := List.mem_singleton.1 ht
    exact hp
  | statement id a =>
    obtain ⟨t, t', hT, hlocal, hsel, hr, rfl⟩ := forestStep_statement h
    obtain ⟨ht, rfl⟩ := Table.get_eq_some_iff.1 hT
    refine hi.updateAll fun u hu hid => ?_
    rw [Table.eq_of_id hu ht (List.mem_singleton.1 hid)]
    exact (passes_of_run hlocal hsel hr).parentId
  | cancel sees now id => exact hi.cancel (forestStep_cancel h)
  | unlink ids =>
    obtain rfl := Option.some.inj h
    exact hi.unlink ids
  | gc days batchSize now =>
    obtain rfl := Option.some.inj h
    unfold Table.gcTasks
    split_ifs
    · exact hi
    · exact hi.unlink _

theorem of_toOption {ε α : Type} {x : Except ε α} {a : α} (h : x.toOption = some a) :
    x = .ok a := by
  cases x with
  | error e => cases h
  | ok b => exact congrArg _ (Option.some.inj h)

theorem createTask_cases (E : Env) (uid : UserId) (c : CreateArgs) (T : Table) :
    (createTask E uid c T).1 = T ∨
      (createTask E uid c T).1 = T.insert [(c.vals E uid 0).create] := by
  unfold createTask
  split
  · exact .inl rfl
  · split_ifs
    · exact .inr rfl
    · exact .inl rfl

/-- **Step.** -/
theorem TreeInv.step (hi : TreeInv T) (h : creationStep T ev = some T') : TreeInv T' := by
  cases ev with
  | create E uid ctx valsList =>
    obtain ⟨hp, h⟩ := Option.ite_none_right_eq_some.1 h
    refine Rpc.create_keeps (P := TreeInv) (F := fun _ => True)
      (Q := fun T parent => T.hasParent parent = true) ?_ ?_ ?_
      (fun r hr => ⟨trivial, List.all_eq_true.1 hp r hr, fun _ _ => trivial⟩) hi (of_toOption h)
    · intro T T' id v hi hw
      obtain ⟨hf, -, rfl⟩ := Rpc.write_ok hw
      exact hi.updateAll fun t _ _ => (write_evolves hf t).parentId
    · exact fun hi _ hnew => hi.insert fun t ht => (hnew t ht).2.2
    · intro T p u hu _
      exact Option.isSome_of_eq_some hu
  | createTask E uid c =>
    obtain ⟨hp, h⟩ := Option.ite_none_right_eq_some.1 h
    obtain rfl := Option.some.inj h
    rcases createTask_cases E uid c T with he | he
    · rw [he]
      exact hi
    · rw [he]
      refine hi.insert fun t ht => ?_
      obtain rfl := List.mem_singleton.1 ht
      exact hp
  | createTasks E uid specs typeCode paramsList commonVals =>
    obtain ⟨l, -, h⟩ := bind_ok (Tools.registry_ok (of_toOption h))
    obtain ⟨rows, rfl, hrows⟩ := Tools.taskRecords_ok h
    refine hi.insert (Traverse.forall₂_right hrows fun s t hst => ?_)
    rw [hst.2.2.1]
    rfl
  | createChildren E parent specs typeCode paramsList commonVals =>
    obtain ⟨hp, h⟩ := Option.ite_none_right_eq_some.1 h
    obtain ⟨l, -, h⟩ := bind_ok (Tools.registry_ok (of_toOption h))
    obtain ⟨rows, rfl, hrows⟩ := Tools.childRecords_ok h
    refine hi.insert (Traverse.forall₂_right hrows fun s t hst => ?_)
    rw [hst.parentId]
    exact hp
  | life reg ev => exact hi.life h

theorem TreeInv.run {es : List CreationEv} (h : Path creationStep anyStep T es T')
    (hi : TreeInv T) : TreeInv T' :=
  h.inv (fun _ _ _ hi _ hs => hi.step hs) hi

end Invariant

/-! ## The walk up -/

/-- `_propagate_progress_upward` on the committed rows, after the write `D` of the task itself and
the propagated ones `C`; the last write comes first. `locked` are the rows that another transaction
has locked. It recurses, with a bound on the depth: `none` if it is not enough. -/
def propagateProgressUpward (propagates : TypeCode → Bool) (T : Table) (locked : TaskId → Bool)
    (D : Written) : ℕ → TaskId → Written → Option Written
  | 0, _, _ => none
  | n + 1, parentId, C =>
    let siblings := T.rows.filter (·.parentId = some parentId)
    if siblings = [] then some C
    else match T.get parentId with
      | none => some C
      | some t =>
        if locked parentId then some C
        else
          let C := (parentId, averageProgress (C ++ D) siblings) :: C
          if propagates t.typeCode then match t.parentId with
            | some q => propagateProgressUpward propagates T locked D n q C
            | none => some C
          else some C

/-- `update_progress` on a committed task: the write of its own row, and the propagated ones. -/
def updateProgress (propagates : TypeCode → Bool) (T : Table) (locked : TaskId → Bool) (value : ℤ)
    (n : ℕ) (t : Task) : Option (Written × Written) :=
  let D := if locked t.id then [] else [(t.id, max 0 (min 100 value))]
  match t.parentId.filter fun _ => propagates t.typeCode with
  | some p => (propagateProgressUpward propagates T locked D n p []).map fun C => (D, C)
  | none => some (D, [])

/-- The tasks `l` are the ancestors of `t` from its parent on, up to one whose type does not
propagate or that has no parent, or to one whose parent is locked. -/
structure ProgressChain (propagates : TypeCode → Bool) (T : Table) (locked : TaskId → Bool)
    (t : Task) (l : List Task) : Prop where
  ancestors : (t :: l).IsChain fun a b => a.parentId = some b.id
  mem : ∀ a ∈ l, a ∈ T.rows
  free : ∀ a ∈ l, locked a.id = false
  propagate : ∀ a ∈ (t :: l).dropLast, propagates a.typeCode = true
  stop : ∀ a ∈ (t :: l).getLast?, propagates a.typeCode = false ∨ a.parentId = none ∨
    ∃ p, a.parentId = some p ∧ locked p = true

/-- Each write is the average of the children, as they are after the writes before it. -/
def Averaged (T : Table) (D : Written) : Written → Prop
  | [] => True
  | (k, v) :: C => v = averageProgress (C ++ D) (T.rows.filter (·.parentId = some k)) ∧
    Averaged T D C

section Propagation

variable {propagates : TypeCode → Bool} {T : Table} {locked : TaskId → Bool} {D C : Written}
  {n m : ℕ} {p : TaskId}

theorem ProgressChain.nil {t : Task} (h : propagates t.typeCode = false ∨ t.parentId = none ∨
    ∃ p, t.parentId = some p ∧ locked p = true) : ProgressChain propagates T locked t [] where
  ancestors := .singleton t
  mem := List.forall_mem_nil _
  free := List.forall_mem_nil _
  propagate := List.forall_mem_nil _
  stop a ha := by
    obtain rfl := Option.some.inj ha
    exact h

theorem ProgressChain.cons {t u : Task} {l : List Task} (hp : t.parentId = some u.id)
    (hu : u ∈ T.rows) (hfree : locked u.id = false) (hprop : propagates t.typeCode = true)
    (h : ProgressChain propagates T locked u l) : ProgressChain propagates T locked t (u :: l) where
  ancestors := .cons_cons hp h.ancestors
  mem := List.forall_mem_cons.2 ⟨hu, h.mem⟩
  free := List.forall_mem_cons.2 ⟨hfree, h.free⟩
  propagate := List.forall_mem_cons.2 ⟨hprop, h.propagate⟩
  stop a ha := by
    rw [List.getLast?_cons_cons] at ha
    exact h.stop a ha

theorem propagate_succ :
    propagateProgressUpward propagates T locked D (n + 1) p C =
      if T.rows.filter (·.parentId = some p) = [] then some C
      else match T.get p with
        | none => some C
        | some t =>
          if locked p then some C
          else if propagates t.typeCode then match t.parentId with
            | some q => propagateProgressUpward propagates T locked D n q
              ((p, averageProgress (C ++ D) (T.rows.filter (·.parentId = some p))) :: C)
            | none =>
              some ((p, averageProgress (C ++ D) (T.rows.filter (·.parentId = some p))) :: C)
          else
            some ((p, averageProgress (C ++ D) (T.rows.filter (·.parentId = some p))) :: C) := rfl

/-- One level: the walk stops, or the row of the parent is written; then it was the last one, or the
walk goes on to the parent's parent. -/
theorem propagate_cases (propagates : TypeCode → Bool) (T : Table) (locked : TaskId → Bool)
    (D C : Written) (p : TaskId) :
    ((T.rows.filter (·.parentId = some p) = [] ∨ T.get p = none ∨ locked p = true) ∧
      ∀ n, propagateProgressUpward propagates T locked D (n + 1) p C = some C) ∨
    ∃ t C₁, T.get p = some t ∧ locked p = false ∧
      C₁ = (p, averageProgress (C ++ D) (T.rows.filter (·.parentId = some p))) :: C ∧
      (((propagates t.typeCode = false ∨ t.parentId = none) ∧
        ∀ n, propagateProgressUpward propagates T locked D (n + 1) p C = some C₁) ∨
      ∃ q, propagates t.typeCode = true ∧ t.parentId = some q ∧
        ∀ n, propagateProgressUpward propagates T locked D (n + 1) p C =
          propagateProgressUpward propagates T locked D n q C₁) := by
  simp only [propagate_succ]
  by_cases hnil : T.rows.filter (·.parentId = some p) = []
  · exact .inl ⟨.inl hnil, fun n => if_pos hnil⟩
  simp only [if_neg hnil]
  cases ht : T.get p with
  | none => exact .inl ⟨.inr (.inl rfl), fun n => rfl⟩
  | some t =>
    by_cases hl : locked p = true
    · exact .inl ⟨.inr (.inr hl), fun n => if_pos hl⟩
    refine .inr ⟨t, _, rfl, Bool.eq_false_iff.2 hl, rfl, ?_⟩
    simp only [if_neg hl]
    by_cases hp : propagates t.typeCode = true
    · simp only [if_pos hp]
      cases hq : t.parentId with
      | none => exact .inl ⟨.inr rfl, fun n => rfl⟩
      | some q => exact .inr ⟨q, hp, rfl, fun n => rfl⟩
    · exact .inl ⟨.inl (Bool.eq_false_iff.2 hp), fun n => if_neg hp⟩

theorem propagate_mono {W : Written} (hm : n ≤ m)
    (h : propagateProgressUpward propagates T locked D n p C = some W) :
    propagateProgressUpward propagates T locked D m p C = some W := by
  induction n generalizing p C m with
  | zero => cases h
  | succ n ih =>
    obtain ⟨m, rfl⟩ : ∃ k, m = k + 1 := ⟨m - 1, by omega⟩
    rcases propagate_cases propagates T locked D C p with
      ⟨-, hr⟩ | ⟨t, C₁, -, -, -, ⟨-, hr⟩ | ⟨q, -, -, hr⟩⟩
    · rw [hr] at h ⊢
      exact h
    · rw [hr] at h ⊢
      exact h
    · rw [hr] at h ⊢
      exact ih (Nat.le_of_succ_le_succ hm) h

/-- The walk is not longer than there are rows up to where it begins. -/
theorem propagate_some (ho : Forest.Ordered Task.id Task.parentId T.rows)
    (hn : Forest.rank Task.id T.rows p < n) :
    ∃ W, propagateProgressUpward propagates T locked D n p C = some W := by
  induction n generalizing p C with
  | zero => exact absurd hn (Nat.not_lt_zero _)
  | succ n ih =>
    rcases propagate_cases propagates T locked D C p with
      ⟨-, hr⟩ | ⟨t, C₁, ht, -, -, ⟨-, hr⟩ | ⟨q, -, hq, hr⟩⟩
    · exact ⟨_, hr n⟩
    · exact ⟨_, hr n⟩
    · rw [hr]
      obtain ⟨hmem, rfl⟩ := Table.get_eq_some_iff.1 ht
      exact ih (Nat.lt_of_lt_of_le (ho.rank_lt hmem hq) (Nat.le_of_lt_succ hn))

/-- **The walk up ends**, from every task and with every set of locked rows. -/
theorem propagate_total (ho : Forest.Ordered Task.id Task.parentId T.rows) (p : TaskId)
    (C : Written) : ∃ W, ∀ n, T.rows.length < n →
      propagateProgressUpward propagates T locked D n p C = some W := by
  have hrank : Forest.rank Task.id T.rows p < T.rows.length + 1 :=
    Nat.lt_succ_of_le (Forest.rank_le_length p)
  obtain ⟨W, hW⟩ := propagate_some (D := D) (C := C) ho hrank
  exact ⟨W, fun n hn => propagate_mono hn hW⟩

/-- **The chain.** From a task whose type propagates, the walk takes its ancestors, each with the
average of its children, until it is stopped. -/
theorem propagate_chain (hi : TreeInv T) {t : Task} (ht : t ∈ T.rows)
    (hprop : propagates t.typeCode = true) (hp : t.parentId = some p)
    (hn : Forest.rank Task.id T.rows p < n) (hC : Averaged T D C) :
    ∃ l W, propagateProgressUpward propagates T locked D n p C = some W ∧
      ProgressChain propagates T locked t l ∧
      W.map Prod.fst = (l.map Task.id).reverse ++ C.map Prod.fst ∧ Averaged T D W := by
  induction n generalizing t p C with
  | zero => exact absurd hn (Nat.not_lt_zero _)
  | succ n ih =>
    rcases propagate_cases propagates T locked D C p with
      ⟨hstop, hr⟩ | ⟨u, C₁, hu, hfree, hC₁, hlast⟩
    · -- the parent is there and has a child, so it is locked
      have hlocked : locked p = true := by
        obtain ⟨v, hv, hid⟩ := hasParent_iff.1 (hi.parent t ht) p hp
        rcases hstop with hnil | hnone | hlocked
        · exact absurd (List.mem_filter.2 ⟨ht, by simpa using hp⟩) (hnil ▸ List.not_mem_nil)
        · exact absurd hid (Table.get_none_iff.1 hnone v hv)
        · exact hlocked
      exact ⟨[], C, hr n, .nil (.inr (.inr ⟨p, hp, hlocked⟩)), rfl, hC⟩
    · obtain ⟨hmem, rfl⟩ := Table.get_eq_some_iff.1 hu
      have hC₁' : Averaged T D C₁ := hC₁ ▸ ⟨rfl, hC⟩
      have hkeys : C₁.map Prod.fst = u.id :: C.map Prod.fst := by rw [hC₁]; rfl
      rcases hlast with ⟨hend, hr⟩ | ⟨q, hprop', hq, hr⟩
      · have hl : ProgressChain propagates T locked u [] := .nil (hend.imp_right .inl)
        exact ⟨[u], C₁, hr n, hl.cons hp hmem hfree hprop, hkeys, hC₁'⟩
      · have hlt : Forest.rank Task.id T.rows q < n :=
          Nat.lt_of_lt_of_le (hi.ordered.rank_lt hmem hq) (Nat.le_of_lt_succ hn)
        obtain ⟨l, W, hW, hl, hids, hav⟩ := ih hmem hprop' hq hlt hC₁'
        refine ⟨u :: l, W, (hr n).trans hW, hl.cons hp hmem hfree hprop, ?_, hav⟩
        rw [hids, hkeys]
        simp

/-! ## `update_progress` -/

theorem ProgressChain.tail {t u : Task} {l : List Task}
    (h : ProgressChain propagates T locked t (u :: l)) : ProgressChain propagates T locked u l where
  ancestors := (List.isChain_cons_cons.1 h.ancestors).2
  mem := (List.forall_mem_cons.1 h.mem).2
  free := (List.forall_mem_cons.1 h.free).2
  propagate := (List.forall_mem_cons.1 h.propagate).2
  stop a ha := h.stop a (by rwa [List.getLast?_cons_cons])

theorem ProgressChain.not_cons {t u : Task} {l : List Task}
    (h : ProgressChain propagates T locked t []) :
    ¬ ProgressChain propagates T locked t (u :: l) := by
  intro h'
  have hpar := (List.isChain_cons_cons.1 h'.ancestors).1
  rcases h.stop t rfl with hp | hp | ⟨p, hp, hlocked⟩
  · rw [(List.forall_mem_cons.1 h'.propagate).1] at hp
    cases hp
  · rw [hp] at hpar
    cases hpar
  · obtain rfl := Option.some.inj (hp.symm.trans hpar)
    rw [(List.forall_mem_cons.1 h'.free).1] at hlocked
    cases hlocked

theorem ProgressChain.unique {t : Task} {l l' : List Task}
    (h : ProgressChain propagates T locked t l) (h' : ProgressChain propagates T locked t l') :
    l = l' := by
  induction l generalizing t l' with
  | nil =>
    cases l' with
    | nil => rfl
    | cons u l' => exact absurd h' h.not_cons
  | cons u l ih =>
    cases l' with
    | nil => exact absurd h h'.not_cons
    | cons u' l' =>
      have hpar := (List.isChain_cons_cons.1 h.ancestors).1
      have hpar' := (List.isChain_cons_cons.1 h'.ancestors).1
      obtain rfl : u = u' := Table.eq_of_id (List.forall_mem_cons.1 h.mem).1
        (List.forall_mem_cons.1 h'.mem).1 (Option.some.inj (hpar.symm.trans hpar'))
      rw [ih h.tail h'.tail]

/-- What a call writes on a committed task whose type propagates. -/
theorem updateProgress_chain (hi : TreeInv T) {t : Task} (ht : t ∈ T.rows) {value : ℤ}
    (hprop : propagates t.typeCode = true) : ∃ l D W,
      (∀ n, T.rows.length ≤ n → updateProgress propagates T locked value n t = some (D, W)) ∧
      ProgressChain propagates T locked t l ∧ W.map Prod.fst = (l.map Task.id).reverse ∧
      Averaged T D W := by
  have hfilter : (t.parentId.filter fun _ => propagates t.typeCode) = t.parentId := by
    rw [hprop]
    cases t.parentId <;> rfl
  unfold updateProgress
  rw [hfilter]
  cases hp : t.parentId with
  | none =>
    exact ⟨[], _, [], fun n _ => rfl, .nil (.inr (.inl hp)), rfl, trivial⟩
  | some p =>
    have hlt : Forest.rank Task.id T.rows p < T.rows.length :=
      Nat.lt_of_lt_of_le (hi.ordered.rank_lt ht hp) (Forest.rank_le_length t.id)
    obtain ⟨l, W, hW, hl, hids, hav⟩ := propagate_chain
      (D := if locked t.id then [] else [(t.id, max 0 (min 100 value))]) (C := [])
      hi ht hprop hp hlt trivial
    refine ⟨l, _, W, fun n hn => ?_, hl, hids.trans (List.append_nil _), hav⟩
    simp only [propagate_mono hn hW, Option.map_some]

/-- The climb of a call of `update_progress` that has locked all the rows it can is the walk up. -/
theorem climb_of_propagate {c : ProgressCall} {σ : Snapshot TaskId Task} {L : List TaskId}
    {out : TaskId → TaskId → Bool} {i : TaskId} (hrow : σ.row = T.get) (htab : σ.table = T.rows)
    (hout : ∀ k, out i k = locked k) (hL : ∀ t ∈ T.rows, locked t.id = false → t.id ∈ L)
    {W : Written} (hm : n ≤ m)
    (h : propagateProgressUpward c.propagateProgress T locked D n p C = some W) :
    c.climb σ L out D i m p C = .ok W := by
  have hchildren : ∀ k, progressChildren σ k = T.rows.filter (·.parentId = some k) := by
    intro k
    unfold progressChildren
    rw [htab]
  induction n generalizing p C m with
  | zero => cases h
  | succ n ih =>
    obtain ⟨m, rfl⟩ : ∃ k, m = k + 1 := ⟨m - 1, by omega⟩
    rw [propagate_succ] at h
    unfold ProgressCall.climb
    rw [hchildren, hrow, hout]
    by_cases hnil : T.rows.filter (·.parentId = some p) = []
    · rw [if_pos hnil] at h ⊢
      exact congrArg _ (Option.some.inj h)
    rw [if_neg hnil] at h ⊢
    cases ht : T.get p with
    | none =>
      rw [ht] at h
      exact congrArg _ (Option.some.inj h)
    | some t =>
      simp only [ht] at h ⊢
      by_cases hl : locked p = true
      · rw [if_pos hl] at h ⊢
        exact congrArg _ (Option.some.inj h)
      obtain ⟨hmem, hid⟩ := Table.get_eq_some_iff.1 ht
      have hpL : p ∈ L := hid ▸ hL t hmem (hid ▸ Bool.eq_false_iff.2 hl)
      rw [if_neg hl] at h ⊢
      rw [if_pos hpL]
      by_cases hp : c.propagateProgress t.typeCode = true
      · rw [if_pos hp] at h ⊢
        cases hq : t.parentId with
        | none =>
          rw [hq] at h
          exact congrArg _ (Option.some.inj h)
        | some q =>
          rw [hq] at h
          exact ih (Nat.le_of_succ_le_succ hm) h
      · rw [if_neg hp] at h ⊢
        exact congrArg _ (Option.some.inj h)

def Table.snapshot (T : Table) (ver : TaskId → ℕ) : Snapshot TaskId Task :=
  ⟨T.get, ver, T.rows.map Task.id⟩

theorem snapshot_table (ver : TaskId → ℕ) : (T.snapshot ver).table = T.rows := by
  unfold Snapshot.table Table.snapshot
  rw [List.filterMap_map]
  have hself : ∀ t ∈ T.rows, (T.get ∘ Task.id) t = some t := fun t ht => Table.mem_iff_get.1 ht
  rw [List.filterMap_congr hself]
  exact List.filterMap_some

/-- A call of `update_progress` that finds the committed table and can lock what is not locked
already writes what `updateProgress` says. -/
theorem run_updateProgress (hi : TreeInv T) {t : Task} (ht : t ∈ T.rows) {c : ProgressCall}
    (htargets : c.targets = [⟨t.id, t.parentId.filter fun _ => c.propagateProgress t.typeCode⟩])
    {L : List TaskId} (hL : ∀ u ∈ T.rows, locked u.id = false → u.id ∈ L) (ver : TaskId → ℕ) :
    ∃ W, (∀ n, T.rows.length ≤ n →
        updateProgress c.propagateProgress T locked c.value n t = some W) ∧
      c.run (T.snapshot ver) L (fun _ k => locked k) = .ok W := by
  have hlen : (T.snapshot ver).keys.length = T.rows.length := List.length_map _
  obtain ⟨D, hD⟩ : ∃ D : Written,
      D = if locked t.id then [] else [(t.id, max 0 (min 100 c.value))] := ⟨_, rfl⟩
  have hdirect : c.direct (T.snapshot ver) L (fun _ k => locked k) c.targets = .ok D := by
    rw [htargets, hD]
    unfold ProgressCall.direct
    show (if (T.get t.id).isNone = true ∨ locked t.id = true then Except.ok []
      else if t.id ∈ L then _ else _) = _
    rw [Table.mem_iff_get.1 ht]
    by_cases hl : locked t.id = true
    · rw [if_pos (.inr hl), if_pos hl]
    · rw [if_neg (by simp [hl]), if_pos (hL t ht (Bool.eq_false_iff.2 hl)), if_neg hl]
      rfl
  unfold ProgressCall.run updateProgress
  rw [hdirect, htargets, ← hD]
  cases hp : t.parentId.filter fun _ => c.propagateProgress t.typeCode with
  | none => exact ⟨_, fun n _ => rfl, rfl⟩
  | some p =>
    have hpar : t.parentId = some p := (Option.filter_eq_some_iff.1 hp).1
    have hlt : Forest.rank Task.id T.rows p < T.rows.length :=
      Nat.lt_of_lt_of_le (hi.ordered.rank_lt ht hpar) (Forest.rank_le_length t.id)
    have hclimb : ∃ W, propagateProgressUpward c.propagateProgress T locked D T.rows.length p [] =
        some W := propagate_some hi.ordered hlt
    obtain ⟨W, hW⟩ := hclimb
    refine ⟨(D, W), fun n hn => ?_, ?_⟩
    · show (propagateProgressUpward c.propagateProgress T locked D n p []).map _ = _
      rw [propagate_mono hn hW]
      rfl
    · have hrun : c.climb (T.snapshot ver) L (fun _ k => locked k) D t.id
          (T.snapshot ver).keys.length p [] = .ok W :=
        climb_of_propagate rfl (snapshot_table ver) (fun _ => rfl) hL (Nat.le_of_eq hlen.symm) hW
      show ((c.climb (T.snapshot ver) L (fun _ k => locked k) D t.id
        (T.snapshot ver).keys.length p []).bind _).map _ = _
      rw [hrun]
      rfl

end Propagation

/-! ## The cascade down -/

/-- A call of `action_cancel` ends and comes to each task once at most. -/
theorem actionCancel_once (now : ℕ) {ids : List TaskId} (hids : ids.Nodup) (T : Table) :
    ∃ c, (∀ n, T.rows.length < n → Records.actionCancel now n ids T = some c) ∧
      c.calls.flatten.Nodup := by
  obtain ⟨c, hc⟩ := Records.actionCancel_total now ids T
  refine ⟨c, hc, ?_⟩
  rcases Records.actionCancel_cases (hc _ (Nat.lt_succ_self _)) with ⟨e, rfl⟩ | ⟨-, hcascade⟩
  · rw [List.flatten_singleton]
    exact hids
  · exact hcascade.once hids

/-! ## The result -/

/-- The codes of three types: a report does not propagate, and its parts do. -/
def reportTypes : List TypeCode := ["report", "part", "piece"]

def partArgs : CreateArgs := { typeCode := "part", parentId := some 1 }

def partTask : Task := { (partArgs.vals ⟨[], reportTypes, 100, []⟩ 5 0).create with id := 2 }

/-- A report, its part, and the two pieces of the part. -/
def reportTree : List CreationEv := [
  .createTask ⟨[], reportTypes, 100, []⟩ 5 { typeCode := "report" },
  .createTask ⟨[], reportTypes, 100, []⟩ 5 partArgs,
  .createChildren ⟨[], true, reportTypes, 100⟩ partTask
    [.spec { typeCode := "piece", named := by decide },
      .spec { typeCode := "piece", named := by decide }] .none .none {}]

end GenericTaskQueue
