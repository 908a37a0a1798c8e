import GenericBackground.TaskQueue.Transactions
import Mathlib.Algebra.BigOperators.Group.List.Basic
import Mathlib.Algebra.Order.BigOperators.Group.List
import Mathlib.Algebra.Order.Ring.Int

/-!
# Progress

`update_progress` writes on a cursor of its own. It locks the rows of the recordset that are free,
and then climbs: the parent of a task whose type propagates gets the average of its children, as the
cursor sees them, and so does the parent's parent. A row that another transaction has locked is left
alone. What state a row is in does not matter.

The other transactions are those of the queue. Progress stays between 0 and 100 in every run. A done
task shows 100 as long as no call takes effect on a done task with less (`done_shows_full`); a tick
that comes after the task has been completed is written over the 100 (`late_tick`).
-/

namespace GenericTaskQueue

open RowStore Lts

/-! ## A call of `update_progress` -/

/-- A record of the recordset: its id, and its parent if its type propagates progress, as the
transaction of the caller sees them. -/
structure ProgressTarget where
  id : TaskId
  parent : Option TaskId

/-- A call, with the flags in the table of task types. `missed i k` says that what is done for the
record `i` finds row `k` locked; what is done for another record may find it free again. -/
structure ProgressCall where
  targets : List ProgressTarget
  value : ℤ
  propagateProgress : TypeCode → Bool
  missed : TaskId → TaskId → Bool := fun _ _ => false

/-- What the cursor has written, the last write first. -/
abbrev Written := List (TaskId × ℤ)

def Task.shown (W : Written) (t : Task) : ℤ := (W.lookup t.id).getD t.progress

/-- `(s / n)::int`: a half is rounded away from zero. -/
def averageInt (s : ℤ) (n : ℕ) : ℤ :=
  if 0 ≤ s then (2 * s + n) / (2 * n) else -((-(2 * s) + n) / (2 * n))

/-- `COALESCE(AVG(progress), 0)::int`. -/
def averageProgress (W : Written) (children : List Task) : ℤ :=
  if children = [] then 0 else averageInt (children.map (Task.shown W)).sum children.length

def progressChildren (σ : Snapshot TaskId Task) (p : TaskId) : List Task :=
  σ.table.filter (·.parentId = some p)

namespace ProgressCall

variable (c : ProgressCall) (σ : Snapshot TaskId Task) (L : List TaskId)
  (out : TaskId → TaskId → Bool)

/-- The `UPDATE` of the recordset: what it has written, or the row that it asks for. `L` are the
rows that it has locked; `out i k` is a row that it leaves out. -/
def direct : List ProgressTarget → Except TaskId Written
  | [] => .ok []
  | x :: xs =>
    if (σ.row x.id).isNone ∨ out x.id x.id then direct xs
    else if x.id ∈ L then (direct xs).map fun D => (x.id, max 0 (min 100 c.value)) :: D
    else .error x.id

/-- `_propagate_progress_upward` for the record `i`, after the writes `D` of the recordset and the
propagated ones `C`. Nobody is his own ancestor, so as many levels as there are rows suffice. -/
def climb (D : Written) (i : TaskId) : ℕ → TaskId → Written → Except TaskId Written
  | 0, _, C => .ok C
  | n + 1, p, C =>
    if progressChildren σ p = [] then .ok C
    else match σ.row p with
      | none => .ok C
      | some t =>
        if out i p then .ok C
        else if p ∈ L then
          let C := (p, averageProgress (C ++ D) (progressChildren σ p)) :: C
          if c.propagateProgress t.typeCode then match t.parentId with
            | some q => climb D i n q C
            | none => .ok C
          else .ok C
        else .error p

/-- The propagation, record by record. -/
def climbs (D : Written) : List ProgressTarget → Written → Except TaskId Written
  | [], C => .ok C
  | x :: xs, C => match x.parent with
    | none => climbs D xs C
    | some p => (climb c σ L out D x.id σ.keys.length p C).bind (climbs D xs)

/-- The whole call: the writes of the recordset, and the propagated ones. -/
def run : Except TaskId (Written × Written) :=
  (direct c σ L out c.targets).bind fun D =>
    (climbs c σ L out D c.targets []).map fun C => (D, C)

def asks (S : List TaskId) : Option TaskId :=
  match run c σ L fun i k => c.missed i k || k ∈ S with
  | .error k => some k
  | .ok _ => none

/-- The writes of a call that has locked `L` and asks for nothing more. -/
def writes : Written × Written :=
  match run c σ L fun i k => c.missed i k || k ∉ L with
  | .error _ => ([], [])
  | .ok W => W

end ProgressCall

/-! ## The program -/

/-- The transactions of the queue, and the calls of `update_progress`. -/
inductive ProgressTx where
  | queue (a : Tx)
  | updateProgress (c : ProgressCall)

section Rows

variable {c : ProgressCall} {σ : Snapshot TaskId Task} {L : List TaskId}
  {out : TaskId → TaskId → Bool} {xs : List ProgressTarget} {D C C' : Written} {n : ℕ}
  {i k p : TaskId}

theorem ProgressCall.direct_error (h : c.direct σ L out xs = .error k) :
    k ∉ L ∧ ∃ i, out i k = false := by
  induction xs with
  | nil => cases h
  | cons x xs ih =>
    unfold direct at h
    split_ifs at h with hout hL
    · exact ih h
    · cases hd : c.direct σ L out xs with
      | error k' =>
        rw [hd] at h
        obtain rfl := Except.error.inj h
        exact ih hd
      | ok D => rw [hd] at h; cases h
    · obtain rfl := Except.error.inj h
      exact ⟨hL, x.id, Bool.eq_false_iff.2 fun ho => hout (.inr ho)⟩

theorem ProgressCall.climb_cases {r : Except TaskId Written}
    (h : c.climb σ L out D i (n + 1) p C = r) :
    r = .ok C ∨ (r = .error p ∧ out i p = false ∧ p ∉ L) ∨
      (progressChildren σ p ≠ [] ∧
        ∃ C₁, C₁ = (p, averageProgress (C ++ D) (progressChildren σ p)) :: C ∧
          (r = .ok C₁ ∨ ∃ q, c.climb σ L out D i n q C₁ = r)) := by
  unfold climb at h
  by_cases hnil : progressChildren σ p = []
  · rw [if_pos hnil] at h
    exact .inl h.symm
  rw [if_neg hnil] at h
  cases hp : σ.row p with
  | none => rw [hp] at h; exact .inl h.symm
  | some t =>
    simp only [hp] at h
    by_cases hout : out i p = true
    · rw [if_pos hout] at h
      exact .inl h.symm
    rw [if_neg hout] at h
    by_cases hL : p ∈ L
    · rw [if_pos hL] at h
      refine .inr (.inr ⟨hnil, _, rfl, ?_⟩)
      split_ifs at h
      · cases hq : t.parentId with
        | none => rw [hq] at h; exact .inl h.symm
        | some q => rw [hq] at h; exact .inr ⟨q, h⟩
      · exact .inl h.symm
    · rw [if_neg hL] at h
      exact .inr (.inl ⟨h.symm, Bool.eq_false_iff.2 hout, hL⟩)

theorem ProgressCall.climb_error (h : c.climb σ L out D i n p C = .error k) :
    k ∉ L ∧ ∃ i, out i k = false := by
  induction n generalizing p C with
  | zero => cases h
  | succ n ih =>
    rcases climb_cases h with hr | ⟨hr, hout, hL⟩ | ⟨-, C₁, -, hr | ⟨q, hr⟩⟩
    · cases hr
    · obtain rfl := Except.error.inj hr
      exact ⟨hL, i, hout⟩
    · cases hr
    · exact ih hr

theorem bind_error {ε α β : Type} {x : Except ε α} {f : α → Except ε β} {e : ε}
    (h : x.bind f = .error e) : x = .error e ∨ ∃ a, x = .ok a ∧ f a = .error e := by
  cases x with
  | error e' => exact .inl (congrArg _ (Except.error.inj h))
  | ok a => exact .inr ⟨a, rfl, h⟩

theorem ProgressCall.climbs_error (h : c.climbs σ L out D xs C = .error k) :
    k ∉ L ∧ ∃ i, out i k = false := by
  induction xs generalizing C with
  | nil => cases h
  | cons x xs ih =>
    unfold climbs at h
    cases hx : x.parent with
    | none => rw [hx] at h; exact ih h
    | some p =>
      simp only [hx] at h
      rcases bind_error h with h | ⟨C', -, h⟩
      · exact climb_error h
      · exact ih h

theorem ProgressCall.asks_fresh {S : List TaskId} (h : c.asks σ L S = some k) : k ∉ L ∧ k ∉ S := by
  unfold asks at h
  split at h
  · next k' hr =>
    obtain rfl := Option.some.inj h
    have key : k' ∉ L ∧ ∃ i, (c.missed i k' || decide (k' ∈ S)) = false := by
      unfold run at hr
      rcases bind_error hr with hr | ⟨D, -, hr⟩
      · exact direct_error hr
      · cases hc : c.climbs σ L (fun i k => c.missed i k || decide (k ∈ S)) D c.targets [] with
        | error k'' =>
          rw [hc] at hr
          obtain rfl := Except.error.inj hr
          exact climbs_error hc
        | ok C => rw [hc] at hr; cases hr
    obtain ⟨hL, i, hi⟩ := key
    refine ⟨hL, fun hS => ?_⟩
    simp [hS] at hi
  · cases h

end Rows

/-- The transactions as a program of the row store. -/
def progressProg (reg : Registry) : Prog ProgressTx TaskId Task where
  next
    | .queue a, σ, L, S => (prog reg).next a σ L S
    | .updateProgress c, σ, L, S => (c.asks σ L S).map fun k => (.skipLocked, k)
  write
    | .queue a, σ, L, k => (prog reg).write a σ L k
    | .updateProgress c, σ, L, k => (((c.writes σ L).2 ++ (c.writes σ L).1).lookup k).bind fun v =>
        (σ.row k).map fun t => some { t with progress := v }
  valid
    | .queue a, σ, L => (prog reg).valid a σ L
    | .updateProgress _, _, _ => true
  next_fresh {a σ L S m k} h := by
    cases a with
    | queue a => exact (prog reg).next_fresh h
    | updateProgress c =>
      obtain ⟨k', hk, heq⟩ := Option.map_eq_some_iff.1 h
      obtain ⟨-, rfl⟩ := Prod.mk.inj heq
      exact ProgressCall.asks_fresh hk

/-- One step. Of the transactions of the queue, `Tx.updateProgress` is left out: a call is what it
stands for. -/
def progressStep (reg : Registry) (s : Db ProgressTx TaskId Task) (e : Event ProgressTx) :
    Option (Db ProgressTx TaskId Task) :=
  match e with
  | .begin (.queue (.updateProgress _)) => none
  | e => RowStore.step (progressProg reg) s e

def DoneAt (σ : Snapshot TaskId Task) (k : TaskId) : Prop := ∃ t ∈ σ.row k, t.state = .done

instance (σ : Snapshot TaskId Task) (k : TaskId) : Decidable (DoneAt σ k) :=
  inferInstanceAs (Decidable (∃ t ∈ σ.row k, t.state = .done))

/-- A call that commits has not propagated to a task that is done, and if it was called on one, the
value is at least 100. -/
def Timely (s : Db ProgressTx TaskId Task) : Event ProgressTx → Prop
  | .commit i => ∀ x ∈ s.txns i, match x.act with
    | .queue _ => True
    | .updateProgress c => (∀ k ∈ (c.writes x.snap x.locked).2.map Prod.fst, ¬ DoneAt s.cur k) ∧
        ∀ k ∈ (c.writes x.snap x.locked).1.map Prod.fst, DoneAt s.cur k → 100 ≤ c.value
  | _ => True

instance (s : Db ProgressTx TaskId Task) (e : Event ProgressTx) : Decidable (Timely s e) := by
  cases e with
  | commit i =>
    unfold Timely
    have : ∀ x : Txn ProgressTx TaskId Task, Decidable (match x.act with
        | .queue _ => True
        | .updateProgress c => (∀ k ∈ (c.writes x.snap x.locked).2.map Prod.fst, ¬ DoneAt s.cur k) ∧
          ∀ k ∈ (c.writes x.snap x.locked).1.map Prod.fst, DoneAt s.cur k → 100 ≤ c.value) :=
      fun x => by cases x.act <;> infer_instance
    infer_instance
  | _ => exact inferInstanceAs (Decidable True)

/-! ## What is written -/

def InRange (v : ℤ) : Prop := 0 ≤ v ∧ v ≤ 100

def RowsInRange (σ : Snapshot TaskId Task) : Prop := ∀ k t, σ.row k = some t → InRange t.progress

theorem clamp_inRange (v : ℤ) : InRange (max 0 (min 100 v)) := by
  unfold InRange
  omega

theorem averageInt_inRange {s : ℤ} {n : ℕ} (hn : 0 < n) (h0 : 0 ≤ s) (h : s ≤ n * 100) :
    InRange (averageInt s n) := by
  have hpos : (0 : ℤ) < 2 * n := by omega
  unfold averageInt
  rw [if_pos h0]
  constructor
  · exact Int.ediv_nonneg (by omega) hpos.le
  · exact Int.lt_add_one_iff.1 (Int.ediv_lt_of_lt_mul hpos (by omega))

theorem shown_inRange {W : Written} {t : Task} (hW : ∀ w ∈ W, InRange w.2)
    (ht : InRange t.progress) : InRange (t.shown W) := by
  unfold Task.shown
  cases hl : W.lookup t.id with
  | none => exact ht
  | some v =>
    obtain ⟨l₁, l₂, rfl, -⟩ := List.lookup_eq_some_iff.1 hl
    exact hW (t.id, v) (List.mem_append_right _ List.mem_cons_self)

theorem averageProgress_inRange {W : Written} {children : List Task} (hW : ∀ w ∈ W, InRange w.2)
    (hc : ∀ t ∈ children, InRange t.progress) : InRange (averageProgress W children) := by
  unfold averageProgress
  split_ifs with hnil
  · exact ⟨le_refl 0, by decide⟩
  · have hshown : ∀ v ∈ children.map (Task.shown W), InRange v := by
      intro v hv
      obtain ⟨t, ht, rfl⟩ := List.mem_map.1 hv
      exact shown_inRange hW (hc t ht)
    have hle := List.sum_le_card_nsmul _ 100 fun v hv => (hshown v hv).2
    have hge := List.sum_nonneg fun v hv => (hshown v hv).1
    rw [List.length_map, nsmul_eq_mul] at hle
    exact averageInt_inRange (List.length_pos_of_ne_nil hnil) hge hle

section Writes

variable {c : ProgressCall} {σ : Snapshot TaskId Task} {L : List TaskId}
  {out : TaskId → TaskId → Bool} {xs : List ProgressTarget} {D C C' : Written} {n : ℕ}
  {i p : TaskId}

theorem progressChildren_inRange (hσ : RowsInRange σ) :
    ∀ t ∈ progressChildren σ p, InRange t.progress := by
  intro t ht
  obtain ⟨k, -, hk⟩ := List.mem_filterMap.1 (List.mem_filter.1 ht).1
  exact hσ k t hk

theorem ProgressCall.direct_value (h : c.direct σ L out xs = .ok D) :
    ∀ w ∈ D, w.2 = max 0 (min 100 c.value) := by
  induction xs generalizing D with
  | nil =>
    obtain rfl := Except.ok.inj h
    exact nofun
  | cons x xs ih =>
    unfold direct at h
    split_ifs at h with hout hL
    · exact ih h
    · obtain ⟨D', hD', rfl⟩ := map_ok h
      exact List.forall_mem_cons.2 ⟨rfl, ih hD'⟩

theorem ProgressCall.climb_inRange (hσ : RowsInRange σ) (hD : ∀ w ∈ D, InRange w.2)
    (hC : ∀ w ∈ C, InRange w.2) (h : c.climb σ L out D i n p C = .ok C') :
    ∀ w ∈ C', InRange w.2 := by
  induction n generalizing p C with
  | zero =>
    obtain rfl := Except.ok.inj h
    exact hC
  | succ n ih =>
    rcases climb_cases h with hr | ⟨hr, -⟩ | ⟨-, C₁, hC₁, hr⟩
    · obtain rfl := Except.ok.inj hr
      exact hC
    · cases hr
    · -- the average of the children
      have hC₁ : ∀ w ∈ C₁, InRange w.2 := by
        rw [hC₁]
        refine List.forall_mem_cons.2 ⟨?_, hC⟩
        exact averageProgress_inRange (List.forall_mem_append.2 ⟨hC, hD⟩)
          (progressChildren_inRange hσ)
      rcases hr with hr | ⟨q, hr⟩
      · obtain rfl := Except.ok.inj hr
        exact hC₁
      · exact ih hC₁ hr

theorem ProgressCall.climbs_inRange (hσ : RowsInRange σ) (hD : ∀ w ∈ D, InRange w.2)
    (hC : ∀ w ∈ C, InRange w.2) (h : c.climbs σ L out D xs C = .ok C') :
    ∀ w ∈ C', InRange w.2 := by
  induction xs generalizing C with
  | nil =>
    obtain rfl := Except.ok.inj h
    exact hC
  | cons x xs ih =>
    unfold climbs at h
    cases hx : x.parent with
    | none => rw [hx] at h; exact ih hC h
    | some p =>
      rw [hx] at h
      obtain ⟨C₁, hC₁, h⟩ := bind_ok h
      exact ih (climb_inRange hσ hD hC hC₁) h

/-- **What a call writes.** The rows of the recordset get the clamped value, and what is propagated
is in range. -/
theorem ProgressCall.writes_spec (hσ : RowsInRange σ) :
    (∀ w ∈ (c.writes σ L).1, w.2 = max 0 (min 100 c.value)) ∧
      ∀ w ∈ (c.writes σ L).2, InRange w.2 := by
  unfold writes
  split
  · exact ⟨by simp, by simp⟩
  · next W hW =>
    unfold run at hW
    obtain ⟨D, hD, h⟩ := bind_ok hW
    obtain ⟨C, hC, rfl⟩ := map_ok h
    have hval := direct_value hD
    refine ⟨hval, climbs_inRange hσ (fun w hw => ?_) (List.forall_mem_nil _) hC⟩
    rw [hval w hw]
    exact clamp_inRange _

end Writes

/-! ## A call as a list of ticks -/

section Ticks

variable {reg : Registry} {k : TaskId} {t : Task} {b : Bool} {W : Written}

/-- The statements of the ticks on row `k`, in the order in which they were written. -/
def tickActs (W : Written) (k : TaskId) : List RowAct :=
  ((W.reverse.map fun w => (w.1, RowAct.progress w.2)).filter fun p => p.1 = k).map Prod.snd

theorem tickActs_cons (w : TaskId × ℤ) :
    tickActs (w :: W) k = tickActs W k ++ if w.1 = k then [.progress w.2] else [] := by
  unfold tickActs
  rw [List.reverse_cons, List.map_append, List.filter_append, List.map_append]
  by_cases h : w.1 = k <;> simp [h]

theorem runActs_ticks (hW : ∀ w ∈ W, InRange w.2) :
    runActs reg (tickActs W k) (b, some t) =
      .ok (b || (W.lookup k).isSome, some { t with progress := (W.lookup k).getD t.progress }) := by
  induction W with
  | nil => simp [tickActs, runActs]
  | cons w W ih =>
    obtain ⟨hw, hW⟩ := List.forall_mem_cons.1 hW
    rw [tickActs_cons, runActs_append_eq, ih hW]
    by_cases h : w.1 = k
    · have hclamp : max 0 (min 100 w.2) = w.2 := by
        unfold InRange at hw
        omega
      have hlook : (w :: W).lookup k = some w.2 := by
        rw [List.lookup_cons, beq_iff_eq.2 h.symm]
      rw [if_pos h, hlook]
      simp [Except.bind, runActs, RowAct.exec, RowAct.selects, RowAct.run, RowAct.onTask,
        setProgress, Except.map, RowAct.lockOnly, hclamp]
    · have hlook : (w :: W).lookup k = W.lookup k := by
        rw [List.lookup_cons, beq_false_of_ne fun he => h he.symm]
      rw [if_neg h, hlook]
      rfl

theorem runActs_ticks_none (W : Written) (k : TaskId) :
    runActs reg (tickActs W k) (b, none) = .ok (b, none) := by
  induction W with
  | nil => rfl
  | cons w W ih =>
    rw [tickActs_cons, runActs_append_eq, ih]
    split_ifs <;> rfl

/-- **Refinement.** A call writes what `Tx.updateProgress` writes with the writes of the call as its
ticks. -/
theorem progressProg_write {c : ProgressCall} {σ : Snapshot TaskId Task} {L : List TaskId}
    (hσ : RowsInRange σ) : (progressProg reg).write (.updateProgress c) σ L k =
      (prog reg).write (.updateProgress ((c.writes σ L).2 ++ (c.writes σ L).1).reverse) σ L k := by
  obtain ⟨hD, hC⟩ := c.writes_spec (L := L) hσ
  have hW : ∀ w ∈ (c.writes σ L).2 ++ (c.writes σ L).1, InRange w.2 := by
    refine List.forall_mem_append.2 ⟨hC, fun w hw => ?_⟩
    rw [hD w hw]
    exact clamp_inRange _
  have hacts : (Tx.updateProgress ((c.writes σ L).2 ++ (c.writes σ L).1).reverse).acts reg σ L k =
      tickActs ((c.writes σ L).2 ++ (c.writes σ L).1) k := rfl
  have hwrites : (progressProg reg).write (.updateProgress c) σ L k =
      (((c.writes σ L).2 ++ (c.writes σ L).1).lookup k).bind fun v =>
        (σ.row k).map fun t => some { t with progress := v } := rfl
  rw [hwrites]
  cases hrow : σ.row k with
  | none =>
    rw [write_of_run (hacts ▸ hrow ▸ runActs_ticks_none _ _)]
    cases List.lookup k ((c.writes σ L).2 ++ (c.writes σ L).1) <;> rfl
  | some t =>
    rw [write_of_run (hacts ▸ hrow ▸ runActs_ticks hW)]
    cases List.lookup k ((c.writes σ L).2 ++ (c.writes σ L).1) <;> rfl

end Ticks

/-! ## What the queue writes -/

/-- What the statements of the queue make of the progress: it is kept, by a task that was done if it
is; it is reset; or it is 100. -/
inductive Shows (o : Option Task) (t' : Task) : Prop
  | kept (t : Task) (ht : o = some t) (progress : t'.progress = t.progress)
      (done : t'.state = .done → t.state = .done)
  | reset (progress : t'.progress = 0) (state : t'.state ≠ .done)
  | full (progress : t'.progress = 100)

theorem Shows.trans {o₁ o₂ : Option Task} {t : Task} (h₁ : ∀ t', o₂ = some t' → Shows o₁ t')
    (h₂ : Shows o₂ t) : Shows o₁ t := by
  cases h₂ with
  | kept t' ht' hp hd =>
    cases h₁ t' ht' with
    | kept t₀ ht₀ hp₀ hd₀ => exact .kept t₀ ht₀ (hp.trans hp₀) fun h => hd₀ (hd h)
    | reset hp₀ hs₀ => exact .reset (hp.trans hp₀) fun h => hs₀ (hd h)
    | full hp₀ => exact .full (hp.trans hp₀)
  | reset hp hs => exact .reset hp hs
  | full hp => exact .full hp

theorem Shows.same {t t' : Task} (hp : t'.progress = t.progress) (hs : t'.state = t.state) :
    Shows (some t) t' := .kept t rfl hp fun h => hs ▸ h

theorem Shows.left {t t' : Task} (hp : t'.progress = t.progress) (hs : t'.state ≠ .done) :
    Shows (some t) t' := .kept t rfl hp fun h => absurd h hs

theorem RowAct.shows {reg : Registry} {a : RowAct} {o : Option Task} {t' : Task}
    (ha : ∀ v, a ≠ .progress v) (h : a.run reg o = .ok (some t')) : Shows o t' := by
  rcases o with _ | t
  · -- a created task
    simp only [RowAct.run] at h
    split at h
    · obtain rfl := Option.some.inj (Except.ok.inj h)
      exact .reset rfl fun h => by cases h
    · cases h
  change a.onTask reg t = .ok (some t') at h
  cases a with
  | user u =>
    cases u with
    | create v => cases h
    | unlink => cases h
    | lookupUniqueKey key => obtain rfl := Option.some.inj (Except.ok.inj h); exact .same rfl rfl
    | write v => obtain rfl := Option.some.inj (Except.ok.inj h); exact .same rfl rfl
    | storePhaseData vals => obtain rfl := Option.some.inj (Except.ok.inj h); exact .same rfl rfl
    | enterPhase phase childIds =>
      obtain rfl := Option.some.inj (Except.ok.inj h); exact .same rfl rfl
    | actionCancel now =>
      obtain ⟨-, rfl⟩ := checked_some h
      exact .left rfl fun h => by cases h
    | actionRetry eta =>
      refine of_map_some (fun u hu => ?_) h
      obtain ⟨-, rfl⟩ := actionRetry_ok hu
      exact .reset rfl fun h => by cases h
  | assign worker uuid =>
    refine of_map_some (fun u hu => ?_) h
    obtain ⟨-, rfl⟩ := claimRow_eq hu
    exact .left rfl fun h => by cases h
  | start now =>
    obtain ⟨-, rfl⟩ := checked_some h
    exact .reset rfl fun h => by cases h
  | stuck =>
    obtain ⟨-, rfl⟩ := checked_some h
    exact .left rfl fun h => by cases h
  | waitChildren =>
    obtain ⟨-, rfl⟩ := checked_some h
    exact .left rfl fun h => by cases h
  | progress value => exact absurd rfl (ha value)
  | done runner now result =>
    obtain ⟨-, rfl⟩ := checked_some h
    exact .full rfl
  | failure runner now exc traceback read =>
    refine of_map_some (fun u hu => ?_) h
    rcases handleFailure_cases hu with ⟨-, _, rfl⟩ | ⟨-, hu⟩
    · exact .reset rfl fun h => by cases h
    · obtain ⟨-, rfl⟩ := checked_ok hu
      exact .left rfl fun h => by cases h
  | lostExecution runner worker now error =>
    refine of_map_some (fun u hu => ?_) h
    rcases handleLostExecution_cases hu with ⟨-, hu⟩ | ⟨-, -, rfl⟩ | ⟨-, -, hu⟩
    · obtain ⟨-, rfl⟩ := checked_ok hu
      exact .left rfl fun h => by cases h
    · exact .reset rfl fun h => by cases h
    · obtain ⟨-, rfl⟩ := checked_ok hu
      exact .left rfl fun h => by cases h
  | autoRetry now =>
    obtain rfl := Option.some.inj (Except.ok.inj h)
    exact .reset rfl fun h => by cases h
  | unown => obtain rfl := Option.some.inj (Except.ok.inj h); exact .same rfl rfl
  | lockWaiting => obtain rfl := Option.some.inj (Except.ok.inj h); exact .same rfl rfl
  | move now m =>
    cases m with
    | done result =>
      obtain ⟨-, rfl⟩ := checked_some h
      exact .full rfl
    | fail error =>
      obtain ⟨-, rfl⟩ := checked_some h
      exact .left rfl fun h => by cases h
    | cancel =>
      obtain ⟨-, rfl⟩ := checked_some h
      exact .left rfl fun h => by cases h

theorem queue_shows {reg : Registry} {a : Tx} {σ : Snapshot TaskId Task} {L : List TaskId}
    {k : TaskId} {t' : Task} (ha : ∀ ticks, a ≠ .updateProgress ticks)
    (h : (prog reg).write a σ L k = some (some t')) : Shows (σ.row k) t' := by
  simp only [prog] at h
  split at h
  · next o hrun =>
    obtain rfl := Option.some.inj h
    refine runActs_rel (R := fun o o' => ∀ t', o' = some t' → Shows o t') ?_ ?_ ?_ hrun t' rfl
    · exact fun o t ht => .kept t ht rfl fun h => h
    · exact fun h₁ h₂ t ht => .trans h₁ (h₂ t ht)
    · rintro act hact o o' - hr t rfl
      refine RowAct.shows (fun v hv => ?_) hr
      subst hv
      cases stmts_issues (mem_acts.1 hact) with
      | progress ticks => exact ha ticks rfl
  · cases h

/-! ## The runs -/

def DoneFull (σ : Snapshot TaskId Task) : Prop :=
  ∀ k t, σ.row k = some t → t.state = .done → t.progress = 100

/-- No transaction is open, and progress is as it should be. -/
structure ProgressStart (s : Db ProgressTx TaskId Task) : Prop where
  ok : s.cur.Ok
  no_txn : ∀ i, s.txns i = none
  range : RowsInRange s.cur
  full : DoneFull s.cur

/-- The invariant: the rows that are committed are in range, and those that open transactions see;
of the transactions of the queue, none is `Tx.updateProgress`. -/
structure ProgressInv (reg : Registry) (s : Db ProgressTx TaskId Task) : Prop where
  wf : s.Wf (progressProg reg)
  rows : RowsInRange s.cur
  snaps : ∀ i x, s.txns i = some x → RowsInRange x.snap
  calls : ∀ i x ticks, s.txns i = some x → x.act ≠ .queue (.updateProgress ticks)

section Runs

variable {reg : Registry} {s s' : Db ProgressTx TaskId Task} {e : Event ProgressTx}

theorem ProgressStart.inv (h : ProgressStart s) : ProgressInv reg s where
  wf := ⟨h.ok, fun i _ hx => absurd ((h.no_txn i).symm.trans hx) nofun,
    fun i _ hx => absurd ((h.no_txn i).symm.trans hx) nofun,
    fun i _ _ _ _ hx => absurd ((h.no_txn i).symm.trans hx) nofun⟩
  rows := h.range
  snaps i _ hx := absurd ((h.no_txn i).symm.trans hx) nofun
  calls i _ _ hx := absurd ((h.no_txn i).symm.trans hx) nofun

theorem progressStep_step (h : progressStep reg s e = some s') :
    Step (progressProg reg) s e s' ∧ ∀ ticks, e ≠ .begin (.queue (.updateProgress ticks)) := by
  unfold progressStep at h
  split at h
  · cases h
  · next hne => exact ⟨step_iff.1 h, hne⟩

/-- **Commits.** A row that changes is one that a transaction of the queue has changed, or that a
call has ticked. -/
theorem ProgressInv.row (hi : ProgressInv reg s) (h : progressStep reg s e = some s') {k : TaskId}
    {t' : Task} (ht' : s'.cur.row k = some t') : Shows (s.cur.row k) t' ∨
      ∃ i x c t v, e = .commit i ∧ s.txns i = some x ∧ x.act = .updateProgress c ∧
        s.cur.row k = some t ∧ t' = { t with progress := v } ∧
        (k, v) ∈ (c.writes x.snap x.locked).2 ++ (c.writes x.snap x.locked).1 := by
  rcases (progressStep_step h).1.row_change hi.wf k with
    hrow | ⟨i, x, o, rfl, hx, -, hsnap, hw, hrow⟩
  · exact .inl (.kept t' (hrow ▸ ht') rfl fun h => h)
  · obtain rfl := hrow.symm.trans ht'
    have hcalls := hi.calls i x
    cases hact : x.act with
    | queue a =>
      rw [hact] at hw
      rw [← hsnap]
      exact .inl (queue_shows (fun ticks ha => hcalls ticks hx (ha ▸ hact)) hw)
    | updateProgress c =>
      rw [hact] at hw
      obtain ⟨v, hv, hw⟩ := Option.bind_eq_some_iff.1 hw
      obtain ⟨t, ht, heq⟩ := Option.map_eq_some_iff.1 hw
      obtain rfl := Option.some.inj heq
      obtain ⟨l₁, l₂, hl, -⟩ := List.lookup_eq_some_iff.1 hv
      refine .inr ⟨i, x, c, t, v, rfl, hx, hact, hsnap ▸ ht, rfl, ?_⟩
      rw [hl]
      exact List.mem_append_right _ List.mem_cons_self

theorem ProgressInv.step (hi : ProgressInv reg s) (h : progressStep reg s e = some s') :
    ProgressInv reg s' := by
  obtain ⟨hs, hne⟩ := progressStep_step h
  have hold : ∀ i x', s'.txns i = some x' → (∃ x, s.txns i = some x ∧ x'.act = x.act ∧
      x'.snap = x.snap) ∨ ∃ a, e = .begin a ∧ x' = ⟨a, s.cur, [], []⟩ := fun i x' hx' =>
    (hs.txn_old hx').imp (fun ⟨x, hx, ha, hsn, _⟩ => ⟨x, hx, ha, hsn⟩)
      fun ⟨a, he, _, hx⟩ => ⟨a, he, hx⟩
  refine ⟨hs.wf hi.wf, fun k t' ht' => ?_, fun i x' hx' => ?_, fun i x' ticks hx' => ?_⟩
  · rcases hi.row h ht' with hc | ⟨i, x, c, t, v, -, hx, -, -, rfl, hv⟩
    · cases hc with
      | kept t ht hp _ => rw [hp]; exact hi.rows k t ht
      | reset hp _ => rw [hp]; exact ⟨le_refl 0, by decide⟩
      | full hp => rw [hp]; exact ⟨by decide, le_refl 100⟩
    · obtain ⟨hD, hC⟩ := c.writes_spec (L := x.locked) (hi.snaps i x hx)
      rcases List.mem_append.1 hv with hv | hv
      · exact hC _ hv
      · have hval : v = max 0 (min 100 c.value) := hD _ hv
        rw [hval]
        exact clamp_inRange _
  · rcases hold i x' hx' with ⟨x, hx, -, hsn⟩ | ⟨a, -, rfl⟩
    · rw [hsn]; exact hi.snaps i x hx
    · exact hi.rows
  · rcases hold i x' hx' with ⟨x, hx, ha, -⟩ | ⟨a, rfl, rfl⟩
    · rw [ha]; exact hi.calls i x ticks hx
    · exact fun ha => hne ticks (congrArg _ ha)

theorem DoneFull.step (hf : DoneFull s.cur) (hi : ProgressInv reg s) (hok : Timely s e)
    (h : progressStep reg s e = some s') : DoneFull s'.cur := by
  intro k t' ht' hd
  rcases hi.row h ht' with hc | ⟨i, x, c, t, v, rfl, hx, hact, ht, rfl, hv⟩
  · cases hc with
    | kept t ht hp hdone => rw [hp]; exact hf k t ht (hdone hd)
    | reset _ hs => exact absurd hd hs
    | full hp => exact hp
  · -- the call ticks a task that was done when it committed
    have hdone : DoneAt s.cur k := ⟨t, ht, hd⟩
    have hok := hok x hx
    rw [hact] at hok
    rcases List.mem_append.1 hv with hv | hv
    · exact absurd hdone (hok.1 k (List.mem_map_of_mem hv))
    · have hle := hok.2 k (List.mem_map_of_mem hv) hdone
      have hval : v = max 0 (min 100 c.value) :=
        (c.writes_spec (L := x.locked) (hi.snaps i x hx)).1 _ hv
      show v = 100
      omega

end Runs

/-- **Progress.** In every run, progress lies between 0 and 100; and if every call is timely, a done
task shows 100. -/
theorem done_shows_full {reg : Registry} {s₀ s : Db ProgressTx TaskId Task}
    {es : List (Event ProgressTx)} (h0 : ProgressStart s₀)
    (hp : Path (progressStep reg) anyStep s₀ es s) :
    (∀ k t, s.cur.row k = some t → 0 ≤ t.progress ∧ t.progress ≤ 100) ∧
      (Path (progressStep reg) Timely s₀ es s →
        ∀ k t, s.cur.row k = some t → t.state = .done → t.progress = 100) := by
  have hstep : ∀ ok : Db ProgressTx TaskId Task → Event ProgressTx → Prop, ∀ s e s',
      ProgressInv reg s → ok s e → progressStep reg s e = some s' → ProgressInv reg s' :=
    fun _ s e s' hi _ h => hi.step h
  refine ⟨(hp.inv (hstep _) h0.inv).rows, fun ht => ?_⟩
  exact ht.inv_of (I := fun s => DoneFull s.cur) (hstep _)
    (fun s e s' hi hf hok h => hf.step hi hok h) h0.inv h0.full

/-- A waiting parent, a child of it that is done, and one that runs. -/
def batchTable : Table where
  rows := [
    { id := 1, name := "batch", typeCode := "batch", state := .waiting, dateCreated := 10
      createUid := 2 },
    { id := 2, name := "first", typeCode := "leaf", state := .done, progress := 100
      parentId := some 1, dateCreated := 11, createUid := 2 },
    { id := 3, name := "second", typeCode := "leaf", state := .running, runnerId := some 7
      parentId := some 1, dateCreated := 11, createUid := 2 }]
  nodup := by decide

def batchDb : Db ProgressTx TaskId Task :=
  Db.init ⟨batchTable.get, fun _ => 0, batchTable.rows.map Task.id⟩

theorem batchDb_start : ProgressStart batchDb where
  ok := ⟨fun k t ht => by
    obtain ⟨hm, rfl⟩ := Table.get_eq_some_iff.1 ht
    exact List.mem_map_of_mem hm, batchTable.nodup⟩
  no_txn _ := rfl
  range k t ht := by
    have h : ∀ t ∈ batchTable.rows, InRange t.progress := by unfold InRange; decide
    exact h t (Table.get_eq_some_iff.1 ht).1
  full k t ht := by
    have h : ∀ t ∈ batchTable.rows, t.state = .done → t.progress = 100 := by decide
    exact h t (Table.get_eq_some_iff.1 ht).1

/-- A transaction on one row, from its beginning to its commit. -/
def transact (i : ℕ) (a : ProgressTx) : List (Event ProgressTx) := [.begin a, .lock i, .commit i]

/-- The child that runs is at 41, which its parent averages; then both are completed, and a last
notification passes 100. -/
def batchTicks : List (Event ProgressTx) :=
  [.begin (.updateProgress ⟨[⟨3, some 1⟩], 41, fun _ => false, fun _ _ => false⟩), .lock 0, .lock 0,
    .commit 0] ++
  transact 1 (.queue (.execute 7 3 20 [] (.returns none))) ++
  transact 2 (.queue (.checkWaitingParent 1 21 [] (some (.done none)))) ++
  transact 3 (.updateProgress ⟨[⟨1, none⟩], 100, fun _ => false, fun _ _ => false⟩)

theorem batchTicks_full : ∃ s s₁, Path (progressStep []) anyStep batchDb batchTicks s ∧
    checkedRun (progressStep []) anyStep batchDb (batchTicks.take 4) = some s₁ ∧
    (s₁.cur.row 1).map Task.progress = some 71 ∧
    (s.cur.row 1).map Task.state = some .done ∧
    ∀ k t, s.cur.row k = some t → t.state = .done → t.progress = 100 := by
  have hp : Path (progressStep []) anyStep batchDb batchTicks (reached _ _ _ _) :=
    path_reached (by decide +kernel)
  have ht : Path (progressStep []) Timely batchDb batchTicks (reached _ _ _ _) :=
    path_reached (by decide +kernel)
  refine ⟨_, _, hp, rfl, by decide +kernel, by decide +kernel,
    (done_shows_full batchDb_start hp).2 ?_⟩
  rwa [(hp.imp fun _ _ _ => trivial).unique (ht.imp fun _ _ _ => trivial)]

/-- The notification of the first child has computed 50, and calls `update_progress` once the parent
has been completed. -/
def lateTick : List (Event ProgressTx) :=
  transact 0 (.queue (.execute 7 3 20 [] (.returns none))) ++
  transact 1 (.queue (.checkWaitingParent 1 21 [] (some (.done none)))) ++
  transact 2 (.updateProgress ⟨[⟨1, none⟩], 50, fun _ => false, fun _ _ => false⟩)

/-- The late tick is written over the 100. -/
theorem late_tick : ¬ ∀ reg s₀ s es, ProgressStart s₀ → Path (progressStep reg) anyStep s₀ es s →
    ∀ k t, s.cur.row k = some t → 0 ≤ t.progress ∧ t.progress ≤ 100 ∧
      (t.state = .done → t.progress = 100) := by
  intro h
  have hp : Path (progressStep []) anyStep batchDb lateTick (reached _ _ _ _) :=
    path_reached (by decide +kernel)
  have hrow : ∃ t, (reached (progressStep []) anyStep batchDb lateTick).cur.row 1 = some t ∧
      t.state = .done ∧ t.progress = 50 := ⟨_, rfl, rfl, rfl⟩
  obtain ⟨t, ht, hd, hp50⟩ := hrow
  have h100 := (h [] batchDb _ _ batchDb_start hp 1 t ht).2.2 hd
  rw [hp50] at h100
  exact absurd h100 (by decide)

end GenericTaskQueue
