import GenericBackground.TaskQueue.RetryBudget

/-!
# Cancellation of a subtree

`action_cancel` goes down through active tasks that the caller may read: a descendant below one that
is done, failed or cancelled is not reached, nor is one that the record rules hide from the caller
or that is below such a one (`cancelled_iff`). A plain user reads the tasks that he has created; the
superuser and the managers of the queue read all tasks. The tasks reached stay cancelled in every
later run. A failed descendant is not one of them; it stays failed if no automatic retry picks it,
until somebody calls `action_retry` on it or edits its retry settings.
-/

namespace GenericTaskQueue

open RowStore Lts

/-! ## The tree -/

def ChildOf (rows : List Task) (p d : TaskId) : Prop := ∃ t ∈ rows, t.id = d ∧ t.parentId = some p

def Below (rows : List Task) : TaskId → TaskId → Prop := Relation.TransGen (ChildOf rows)

/-- `id` itself, and the descendants linked to it through active tasks that the caller `sees`. -/
inductive Reached (sees : Task → Bool) (rows : List Task) (id : TaskId) : TaskId → Prop
  | root : Reached sees rows id id
  | child {p : TaskId} {t : Task} (hp : Reached sees rows id p) (ht : t ∈ rows)
      (hpar : t.parentId = some p) (ha : t.state ∈ activeStates) (hs : sees t = true) :
      Reached sees rows id t.id

/-- With more rounds than there are rows to reach, `action_cancel` leaves no active child of a
record that it has reached. -/
theorem cancelled_closed {fuel : ℕ} {rows : List Task} {ids : List TaskId}
    (hf : (rows.filter (·.id ∉ ids)).length < fuel) {t : Task} {p : TaskId}
    (ht : t ∈ rows) (hpar : t.parentId = some p) (ha : t.state ∈ activeStates)
    (hp : p ∈ Table.cancelled fuel rows ids) : t.id ∈ Table.cancelled fuel rows ids := by
  induction fuel generalizing rows ids with
  | zero => exact absurd hf (Nat.not_lt_zero _)
  | succ fuel ih =>
    by_cases hid : t.id ∈ ids
    · exact Table.mem_cancelled hid
    unfold Table.cancelled at hp ⊢
    have hrest : t ∈ rows.filter (·.id ∉ ids) := List.mem_filter.2 ⟨ht, by simpa using hid⟩
    have hnext : p ∈ ids → t ∈ (rows.filter (·.id ∉ ids)).filter fun t =>
        t.parentId.any (· ∈ ids) ∧ t.state ∈ activeStates := by
      intro h
      exact List.mem_filter.2 ⟨hrest, by simp [hpar, h, ha]⟩
    refine List.mem_append_right _ ?_
    rcases List.mem_append.1 hp with hp | hp
    · have hmem := hnext hp
      rw [if_neg (List.ne_nil_of_mem hmem)]
      exact Table.mem_cancelled (List.mem_map_of_mem hmem)
    · split_ifs at hp with hnil
      · cases hp
      · rw [if_neg hnil]
        -- the next level is among the rows left, so it leaves fewer
        obtain ⟨u, hu⟩ := List.exists_mem_of_ne_nil _ hnil
        refine ih (Nat.lt_of_lt_of_le ?_ (Nat.lt_succ_iff.1 hf)) hrest hp
        have hlevel := List.mem_map_of_mem (f := Task.id) hu
        exact List.length_filter_lt_length_iff_exists.2
          ⟨u, List.mem_of_mem_filter hu, fun hn => of_decide_eq_true hn hlevel⟩

theorem cancelled_iff {sees : Task → Bool} {rows : List Task} {id : TaskId}
    (hid : ∃ t ∈ rows, t.id = id) {d : TaskId} :
    d ∈ Table.cancelled rows.length (rows.filter sees) [id] ↔ Reached sees rows id d := by
  constructor
  · intro h
    refine Table.cancelled_subset (S := Reached sees rows id) (fun t ht p hpar hp ha => ?_)
      (fun i hi => ?_) d h
    · obtain ⟨ht, hs⟩ := List.mem_filter.1 ht
      exact .child hp ht hpar ha hs
    · rw [List.mem_singleton.1 hi]
      exact .root
  · intro h
    -- the record itself is not among the rows left
    have hlen : ((rows.filter sees).filter (·.id ∉ [id])).length < rows.length := by
      obtain ⟨u, hu, huid⟩ := hid
      rw [List.filter_filter]
      exact List.length_filter_lt_length_iff_exists.2 ⟨u, hu, by simp [huid]⟩
    induction h with
    | root => exact Table.mem_cancelled (List.mem_singleton_self id)
    | child _ ht hpar ha hs ih =>
      exact cancelled_closed hlen (List.mem_filter.2 ⟨ht, hs⟩) hpar ha ih

/-- A descendant that is not reached is one that stops the cascade, or is below one: a task that is
not active, or that the caller does not see. -/
theorem Below.reached_or {sees : Task → Bool} {rows : List Task} {id d : TaskId}
    (h : Below rows id d) : Reached sees rows id d ∨ ∃ t ∈ rows, Below rows id t.id ∧
      (t.state ∉ activeStates ∨ sees t = false) ∧ (t.id = d ∨ Below rows t.id d) := by
  -- on the way down: the first task that stops the cascade
  have stop : ∀ {p d}, Reached sees rows id p → ChildOf rows p d → Below rows id d →
      Reached sees rows id d ∨ ∃ t ∈ rows, Below rows id t.id ∧
        (t.state ∉ activeStates ∨ sees t = false) ∧ (t.id = d ∨ Below rows t.id d) := by
    rintro p _ hp ⟨t, ht, rfl, hpar⟩ hd
    by_cases ha : t.state ∈ activeStates
    · cases hs : sees t with
      | true => exact .inl (.child hp ht hpar ha hs)
      | false => exact .inr ⟨t, ht, hd, .inr hs, .inl rfl⟩
    · exact .inr ⟨t, ht, hd, .inl ha, .inl rfl⟩
  induction h with
  | single h => exact stop .root h (.single h)
  | tail hb h ih =>
    rcases ih with hr | ⟨t, ht, hbt, ha, hd⟩
    · exact stop hr h (.tail hb h)
    · refine .inr ⟨t, ht, hbt, ha, .inr ?_⟩
      rcases hd with rfl | hd
      · exact .single h
      · exact .tail hd h

/-- What `action_cancel` on `id` does to the rows: it cancels what it reaches, and nothing else.
What it does not reach is, or is below, a task that was no longer active or that the caller does not
see. -/
structure Cancels (sees : Task → Bool) (rows : List Task) (now : ℕ) (id : TaskId)
    (row row' : TaskId → Option Task) : Prop where
  reached : ∀ d, Reached sees rows id d → ∃ t, row d = some t ∧
    row' d = some { t with state := .cancelled, dateCompleted := some now }
  others : ∀ d, ¬ Reached sees rows id d → row' d = row d
  stopped : ∀ d, Below rows id d → ¬ Reached sees rows id d → ∃ t ∈ rows, Below rows id t.id ∧
    (t.state ∉ activeStates ∨ sees t = false) ∧ (t.id = d ∨ Below rows t.id d)

theorem Reached.mem {sees : Task → Bool} {rows : List Task} {id d : TaskId}
    (h : Reached sees rows id d) (hid : ∃ t ∈ rows, t.id = id) : ∃ t ∈ rows, t.id = d := by
  cases h with
  | root => exact hid
  | child _ ht _ _ _ => exact ⟨_, ht, rfl⟩

theorem actionCancel_cancels {sees : Task → Bool} {T T' : Table} {now : ℕ} {id : TaskId} {p : Task}
    (hp : T.get id = some p) (h : T.actionCancel sees now id = .ok T') :
    Cancels sees T.rows now id T.get T'.get := by
  have hid : ∃ t ∈ T.rows, t.id = id := ⟨p, Table.get_eq_some_iff.1 hp⟩
  have hget : ∀ d, T'.get d = (T.get d).map fun t =>
      if d ∈ Table.cancelled T.rows.length (T.rows.filter sees) [id] then
        { t with id := d, state := .cancelled, dateCompleted := some now } else t := by
    intro d
    rw [(Table.actionCancel_ok hp h).2]
    exact Table.get_updateAll _ _ _ d
  refine ⟨fun d hd => ?_, fun d hd => ?_, fun d hd hn => hd.reached_or.resolve_left hn⟩
  · obtain ⟨t, ht, rfl⟩ := hd.mem hid
    have hrow := Table.mem_iff_get.1 ht
    refine ⟨t, hrow, ?_⟩
    rw [hget, hrow, Option.map_some, if_pos ((cancelled_iff hid).2 hd)]
  · rw [hget]
    simp [cancelled_iff hid, hd]

/-! ## The transaction -/

/-- What a call of `action_cancel` does: it has read the tree from its snapshot. -/
def cancelBody (sees : Task → Bool) (σ : Snapshot TaskId Task) (now : ℕ) (id : TaskId) :
    List (TaskId × UserAct) :=
  (Table.cancelled σ.table.length (σ.table.filter sees) [id]).map fun k => (k, .actionCancel now)

variable {reg : Registry} {s s' : Sys} {ev : Ev} {k : TaskId}

theorem cancelBody_stmts {sees : Task → Bool} {σ : Snapshot TaskId Task} {now : ℕ} {id : TaskId}
    {L : List TaskId} {act : RowAct} :
    (k, act) ∈ (Tx.user (cancelBody sees σ now id)).stmts reg σ L ↔
      k ∈ Table.cancelled σ.table.length (σ.table.filter sees) [id] ∧
        act = .user (.actionCancel now) := by
  simp only [Tx.stmts, mem_userStmts, cancelBody, List.mem_map, Prod.mk.injEq]
  constructor
  · rintro ⟨u, ⟨k', hk, rfl, rfl⟩, rfl⟩
    exact ⟨hk, rfl⟩
  · rintro ⟨hk, rfl⟩
    exact ⟨_, ⟨k, hk, rfl, rfl⟩, rfl⟩

/-- A row is cancelled once: a second call on it would raise. -/
theorem runActs_cancel {acts : List RowAct} {now : ℕ} {o : Option Task} {b : Bool}
    {q : Bool × Option Task} (hne : acts ≠ [])
    (ha : ∀ a ∈ acts, a = .user (.actionCancel now)) (h : runActs reg acts (b, o) = .ok q) :
    ∃ t, o = some t ∧ q.2 = some { t with state := .cancelled, dateCompleted := some now } := by
  have once : ∀ {p q : Bool × Option Task}, (RowAct.user (.actionCancel now)).exec reg p = .ok q →
      ∃ t, p.2 = some t ∧ .cancelled ∈ allowedTransitions t.state ∧
        q.2 = some { t with state := .cancelled, dateCompleted := some now } := by
    rintro ⟨b, o⟩ q hq
    rcases RowAct.exec_run hq with ⟨-, hr, -⟩ | ⟨hs, -⟩
    · cases o with
      | none => cases hr
      | some t =>
        obtain ⟨u, hu, heq⟩ := map_some_ok hr
        obtain ⟨hs, rfl⟩ := checked_ok hu
        exact ⟨t, rfl, hs, heq⟩
    · cases o <;> cases hs
  cases acts with
  | nil => exact absurd rfl hne
  | cons a acts =>
    obtain ⟨p, hp, hrest⟩ := runActs_cons h
    obtain rfl := ha a List.mem_cons_self
    obtain ⟨t, ht, -, hpt⟩ := once hp
    cases acts with
    | nil =>
      obtain rfl := Except.ok.inj hrest
      exact ⟨t, ht, hpt⟩
    | cons a' acts =>
      obtain ⟨p', hp', -⟩ := runActs_cons hrest
      obtain rfl := ha a' (List.mem_cons_of_mem _ List.mem_cons_self)
      obtain ⟨t', ht', hs, -⟩ := once hp'
      rw [hpt] at ht'
      obtain rfl := Option.some.inj ht'
      cases hs

theorem cancel_commit {sees : Task → Bool} {i now : ℕ} {id : TaskId} {x : Txn Tx TaskId Task}
    (hi : Inv reg s) (hx : s.db.txns i = some x)
    (ha : x.act = .user (cancelBody sees x.snap now id))
    (h : s.step reg (.db (.commit i)) = some s') :
    Cancels sees x.snap.table now id s.db.cur.row s'.db.cur.row := by
  obtain ⟨y, hy, hnone, hs⟩ := Sys.step_commit h
  obtain rfl := Option.some.inj (hx.symm.trans hy)
  have hok := hi.wf.txn i x hx
  have hstmts : ∀ {k act L}, (k, act) ∈ x.act.stmts reg x.snap L ↔
      k ∈ Table.cancelled x.snap.table.length (x.snap.table.filter sees) [id] ∧
        act = .user (.actionCancel now) := by
    intro k act L
    rw [ha]
    exact cancelBody_stmts
  -- a row of the body is locked: nothing is left out
  have hlocked : ∀ {k}, k ∈ Table.cancelled x.snap.table.length (x.snap.table.filter sees) [id] →
      k ∈ x.locked := by
    intro k hk
    rcases next_none hnone (by rw [ha]; rfl) (hstmts.2 ⟨hk, rfl⟩) with hl | hskip | hsel
    · exact hl
    · obtain ⟨L, S, hn⟩ := hok.left k hskip
      obtain ⟨act, hm, hmode, -⟩ := next_some hn
      rw [(hstmts.1 hm).2] at hmode
      cases hmode
    · cases hrow : x.snap.row k <;> rw [hrow] at hsel <;> cases hsel
  have hrow : ∀ {k}, k ∈ Table.cancelled x.snap.table.length (x.snap.table.filter sees) [id] →
      ∃ t, s.db.cur.row k = some t ∧
        s'.db.cur.row k = some { t with state := .cancelled, dateCompleted := some now } := by
    intro k hk
    obtain ⟨b, hrun⟩ := commit_row hi.wf hs hx (hlocked hk)
    refine runActs_cancel (fun hnil => ?_) (fun a hm => (hstmts.1 (mem_acts.1 hm)).2) hrun
    have : RowAct.user (.actionCancel now) ∈ x.act.acts reg x.snap x.locked k :=
      mem_acts.2 (hstmts.2 ⟨hk, rfl⟩)
    rw [hnil] at this
    cases this
  have hid : ∃ t ∈ x.snap.table, t.id = id := by
    have hroot := @Table.mem_cancelled x.snap.table.length (x.snap.table.filter sees) _ _
      (List.mem_singleton_self id)
    obtain ⟨t, ht, -⟩ := hrow hroot
    rw [← hok.locked_row (hlocked hroot)] at ht
    exact ⟨t, (Snapshot.mem_table hok.snap).2 ⟨id, ht⟩, hi.snapIds i x hx id t ht⟩
  refine ⟨fun d hd => hrow ((cancelled_iff hid).2 hd), fun d hd => ?_,
    fun d hd hn => hd.reached_or.resolve_left hn⟩
  rcases hs.row_change hi.wf d with hsame | ⟨j, y, o, he, hy, hk, -⟩
  · exact hsame
  · -- a row that is written has a statement of its own
    obtain rfl := Event.commit.inj he
    obtain rfl := Option.some.inj (hx.symm.trans hy)
    obtain ⟨L, S, m, hn⟩ := hok.asked d hk
    obtain ⟨act, hm, -⟩ := next_some hn
    exact absurd ((cancelled_iff hid).1 (hstmts.1 hm).1) hd

/-! ## A task over a run -/

/-- The id is in use, and no open transaction can create the task again: one that has drawn the id
has read the row before it was there. -/
structure Known (k : TaskId) (s : Sys) : Prop where
  used : k ∈ s.db.cur.keys
  stale : ∀ i x, s.db.txns i = some x → k ∈ x.act.created → x.snap.ver k < s.db.cur.ver k

theorem Known.of_row {t : Task} (hi : Inv reg s) (hd : Drawn s) (ht : s.db.cur.row k = some t) :
    Known k s where
  used := hi.wf.cur.present k t ht
  stale i x hx hk := by
    have hok := hi.wf.txn i x hx
    have hne : s.db.cur.ver k ≠ x.snap.ver k := by
      intro hv
      have hrow := hok.same k hv
      rw [ht, hd i x hx k hk] at hrow
      cases hrow
    have hle := hok.older k
    omega

theorem Known.step (hk : Known k s) (h : s.step reg ev = some s') : Known k s' where
  used := Sys.keys_subset h hk.used
  stale i x hx hc := by
    rcases Sys.step_txn h hx with ⟨y, hy, hact, hsnap⟩ | ⟨-, -, -, ha, -⟩
    · rw [hsnap]
      exact Nat.lt_of_lt_of_le (hk.stale i y hy (hact ▸ hc)) (Sys.ver_le h k)
    · exact absurd hk.used (allows_created ha hc)

theorem Known.keeps {P : Task → Prop} (hi : Inv reg s) (hk : Known k s)
    (h : s.step reg ev = some s')
    (ha : ∀ a ∈ s.stmtsOn reg k ev, ∀ t t', a.selects (some t) = true →
      a.run reg (some t) = .ok (some t') → P t → P t')
    (hP : ∀ t, s.db.cur.row k = some t → P t) : ∀ t, s'.db.cur.row k = some t → P t := by
  rcases Sys.step_db h with ⟨e, rfl, -, hs⟩ | ⟨-, hdb⟩
  · rcases hs.row_change hi.wf k with hsame | ⟨i, x, o, rfl, hx, hlock, -⟩
    · rw [hsame]
      exact hP
    · obtain ⟨b, hrun⟩ := commit_row hi.wf hs hx hlock
      have hnew : ∀ a ∈ x.act.acts reg x.snap x.locked k, a.creates = false := by
        refine acts_no_create fun hc => ?_
        have hlt := hk.stale i x hx hc
        have hver := (hi.wf.txn i x hx).unchanged k hlock
        omega
      refine runActs_rel (R := fun o o' => (∀ t, o = some t → P t) → ∀ t, o' = some t → P t)
        (fun _ h => h) (fun h h' hP => h' (h hP)) (fun a hm o o' hsel hr hP t' ht' => ?_) hrun hP
      subst ht'
      cases o with
      | none => exact (RowAct.run_none (hnew a hm) hr).elim
      | some t => exact ha a (by rw [stmtsOn_commit hx]; exact hm) t t' hsel hr (hP t rfl)
  · rw [hdb]
    exact hP

/-- **Task rule for runs.** What every statement of a run keeps of a task holds of it at the end. A
deleted task does not come back. -/
theorem Sys.task_run {P : Task → Prop} {ok : Sys → Ev → Prop} {es : List Ev} {t t' : Task}
    (hi : Inv reg s) (hd : Drawn s) (h : Path (Sys.step reg) ok s es s')
    (ha : ∀ s ev, ok s ev → ∀ a ∈ s.stmtsOn reg k ev, ∀ t t', a.selects (some t) = true →
      a.run reg (some t) = .ok (some t') → P t → P t')
    (ht : s.db.cur.row k = some t) (hP : P t) (ht' : s'.db.cur.row k = some t') : P t' := by
  have hall := h.inv_of (I := fun s => Known k s ∧ ∀ t, s.db.cur.row k = some t → P t)
    (fun _ _ _ hi _ hs => hi.step hs)
    (fun s ev _ hi hs hok hst => ⟨hs.1.step hst, hs.1.keeps hi hst (ha s ev hok) hs.2⟩) hi
    ⟨.of_row hi hd ht, fun u hu => by
      obtain rfl := Option.some.inj (ht.symm.trans hu)
      exact hP⟩
  exact hall.2 t' ht'

/-- A statement that can make a failed task pending, or let the poll do so: `action_retry`, and a
change of the retry settings. -/
def RowAct.revives : RowAct → Bool
  | .user (.actionRetry _) => true
  | .user (.write v) => v.retryPolicy.isSome || v.maxRetries.isSome
  | _ => false

/-- The step does not revive task `k`. -/
def Unrevived (reg : Registry) (k : TaskId) (s : Sys) (ev : Ev) : Prop :=
  ∀ a ∈ s.stmtsOn reg k ev, a.revives = false

instance (reg : Registry) (k : TaskId) (s : Sys) (ev : Ev) : Decidable (Unrevived reg k s ev) := by
  unfold Unrevived; infer_instance

def Spent (t : Task) : Prop :=
  (t.state = .failed ∧ autoRetryable t = false) ∨ t.state = .cancelled

theorem Spent.same {t t' : Task} (h : Spent t) (hs : t'.state = t.state)
    (hp : t'.retryPolicy = t.retryPolicy) (hc : t'.retryCount = t.retryCount)
    (hm : t'.maxRetries = t.maxRetries) : Spent t' := by
  unfold Spent autoRetryable at *
  rw [hs, hp, hc, hm]
  exact h

theorem Spent.checked {t u v : Task} {st : TaskState} (h : Spent t)
    (hu : (do checkTransition st t; return u : Except TaskError Task) = .ok v)
    (hst : st ≠ .pending) : st = .cancelled ∧ v = u := by
  obtain ⟨hs, rfl⟩ := checked_ok hu
  rcases h with ⟨hf, -⟩ | hf <;> rw [hf] at hs <;> simp [allowedTransitions, hst] at hs
  exact ⟨hs, rfl⟩

theorem UserAct.spent {u : UserAct} {t t' : Task} (hr : (RowAct.user u).revives = false)
    (h : u.onTask t = .ok (some t')) (hP : Spent t) : Spent t' := by
  cases u with
  | create v => cases h
  | lookupUniqueKey key =>
    obtain rfl := Option.some.inj (Except.ok.inj h)
    exact hP
  | write v =>
    obtain rfl := Option.some.inj (Except.ok.inj h)
    obtain ⟨hpol, hmax⟩ : v.retryPolicy = none ∧ v.maxRetries = none := by
      simpa [RowAct.revives] using hr
    exact hP.same rfl (by simp [UserVals.write, hpol]) rfl (by simp [UserVals.write, hmax])
  | storePhaseData vals =>
    obtain rfl := Option.some.inj (Except.ok.inj h)
    exact hP.same rfl rfl rfl rfl
  | enterPhase phase childIds =>
    obtain rfl := Option.some.inj (Except.ok.inj h)
    exact hP.same rfl rfl rfl rfl
  | actionCancel now =>
    have hv := ok_of_map_some h
    obtain ⟨-, rfl⟩ := checked_ok hv
    exact .inr rfl
  | actionRetry eta => cases hr
  | unlink => cases h

theorem RowAct.spent {a : RowAct} {t t' : Task} (hr : a.revives = false)
    (hs : a.selects (some t) = true) (h : a.run reg (some t) = .ok (some t')) (hP : Spent t) :
    Spent t' := by
  change a.onTask reg t = .ok (some t') at h
  have hstate : t.state = .failed ∨ t.state = .cancelled := hP.imp And.left id
  -- an action that does not cancel raises
  have raises : ∀ {c : TaskState} {u : Task}, c ≠ .pending → c ≠ .cancelled →
      (do checkTransition c t; return u : Except TaskError Task).map some = .ok (some t') →
        False := by
    intro c u hp hc hm
    exact hc (hP.checked (ok_of_map_some hm) hp).1
  cases a with
  | user u => exact UserAct.spent hr h hP
  | assign worker uuid =>
    obtain ⟨u, hu, -⟩ := map_some_ok h
    have hp := (claimRow_eq hu).1
    rcases hstate with hf | hf <;> rw [hf] at hp <;> cases hp
  | start now => exact (raises (c := .running) nofun nofun h).elim
  | stuck => exact (raises (c := .stuck) nofun nofun h).elim
  | waitChildren => exact (raises (c := .waiting) nofun nofun h).elim
  | progress value =>
    obtain rfl := Option.some.inj (Except.ok.inj h)
    exact hP.same rfl rfl rfl rfl
  | done runner now result =>
    rcases hstate with h | h <;> exact absurd h (finalizable_ne hs (by decide))
  | failure runner now exc traceback read =>
    rcases hstate with h | h <;> exact absurd h (finalizable_ne hs (by decide))
  | lostExecution runner worker now error =>
    rcases hstate with h | h <;> exact absurd h (finalizable_ne hs (by decide))
  | autoRetry now =>
    have hs : autoRetryable t = true := hs
    rcases hP with ⟨-, hf⟩ | hc
    · rw [hf] at hs
      cases hs
    · have hf := autoRetryable_failed hs
      rw [hc] at hf
      cases hf
  | unown =>
    have hw : t.state = .waiting := of_decide_eq_true hs
    rcases hstate with h | h <;> rw [h] at hw <;> cases hw
  | lockWaiting =>
    have hw : t.state = .waiting := of_decide_eq_true hs
    rcases hstate with h | h <;> rw [h] at hw <;> cases hw
  | move now m =>
    have hw : t.state = .waiting := of_decide_eq_true hs
    rcases hstate with h | h <;> rw [h] at hw <;> cases hw

/-! ## The result -/

/-- **Cancellation.** `action_cancel` cancels exactly the task and the descendants linked to it
through active tasks that the caller may read, in any table, and as a transaction of any run on the
tree that it has read. In every run after it a cancelled or done task stays as it is, and a failed
one that no automatic retry picks is not put back to `pending` unless `action_retry` is called on it
or its retry settings are edited. -/
theorem action_cancel_subtree {sees : Task → Bool} {s₀ : Sys} {es : List Ev} {i now : ℕ}
    {id : TaskId} {x : Txn Tx TaskId Task} (h0 : Start s₀)
    (hp : Path (Sys.step reg) anyStep s₀ es s) (hx : s.db.txns i = some x)
    (ha : x.act = .user (cancelBody sees x.snap now id))
    (h : s.step reg (.db (.commit i)) = some s') :
    (∀ T T' : Table, (T.get id).isSome = true → T.actionCancel sees now id = .ok T' →
      Cancels sees T.rows now id T.get T'.get) ∧
    Cancels sees x.snap.table now id s.db.cur.row s'.db.cur.row ∧
    ∀ d t, Below x.snap.table id d → s'.db.cur.row d = some t →
      (t.state = .done ∨ t.state = .cancelled → ∀ es' s'' t'',
        Path (Sys.step reg) anyStep s' es' s'' → s''.db.cur.row d = some t'' →
          t''.state = t.state) ∧
      (t.state = .failed → autoRetryable t = false → ∀ es' s'' t'',
        Path (Sys.step reg) (Unrevived reg d) s' es' s'' → s''.db.cur.row d = some t'' →
          t''.state = .failed ∨ t''.state = .cancelled) := by
  have hi : Inv reg s := h0.inv.path hp
  have hi' : Inv reg s' := hi.step h
  have hd' : Drawn s' := (Drawn.path h0 hp).step hi h
  refine ⟨fun T T' hT hc => ?_, cancel_commit hi hx ha h, fun d t _ ht =>
    ⟨fun hst es' s'' t'' hp' ht'' => ?_, fun hf hr es' s'' t'' hp' ht'' => ?_⟩⟩
  · obtain ⟨p, hp⟩ := Option.isSome_iff_exists.1 hT
    exact actionCancel_cancels hp hc
  · refine Sys.task_run (P := fun u => u.state = t.state) hi' hd' hp'
      (fun s ev _ a _ u u' hsel hr hu => ?_) ht rfl ht''
    exact (final_stays (.single (RowAct.conforms hsel hr)) (by rwa [hu])).trans hu
  · have hspent : Spent t'' := Sys.task_run hi' hd' hp'
      (fun s ev hok a hm u u' hsel hr hu => RowAct.spent (hok a hm) hsel hr hu) ht
      (.inl ⟨hf, hr⟩) ht''
    exact hspent.imp And.left fun hc => hc

/-- A waiting task of user 2 with a pending child (4), a child that has failed for good (5), one
that has failed and can be retried (2), below which a task is pending (3), and a pending child of
another user (6). -/
def branch : Table where
  rows := [
    { id := 1, name := "root", typeCode := "export", state := .waiting, dateCreated := 10
      createUid := 2 },
    { id := 2, name := "part", typeCode := "export", state := .failed, retryPolicy := .retryAny
      maxRetries := 2, parentId := some 1, dateCreated := 11, createUid := 2 },
    { id := 3, name := "page", typeCode := "export", parentId := some 2, dateCreated := 12
      createUid := 2 },
    { id := 4, name := "part", typeCode := "export", parentId := some 1, dateCreated := 13
      createUid := 2 },
    { id := 5, name := "part", typeCode := "export", state := .failed, parentId := some 1
      dateCreated := 14, createUid := 2 },
    { id := 6, name := "part", typeCode := "export", parentId := some 1, dateCreated := 15
      createUid := 3 }]
  nodup := by simp

def branchTypes : Registry := [("export", {})]

/-- `action_cancel` on the root by its user, about to commit. -/
def cancelling : List Ev := [
  .db (.begin (.user (cancelBody (·.createUid = 2) (Sys.init branch).db.cur 200 1))),
  .db (.lock 0), .db (.lock 0)]

def polled : List Ev := [
  .db (.begin (.autoRetryFailed { recordId := 1, serviceName := none } id 300)), .db (.lock 1),
  .db (.commit 1)]

theorem branch_cancelled : ∃ s s' s'', Path (Sys.step branchTypes) anyStep (Sys.init branch)
      cancelling s ∧
    s.step branchTypes (.db (.commit 0)) = some s' ∧
    (s'.db.cur.row 4).map Task.state = some .cancelled ∧
    Path (Sys.step branchTypes) (Unrevived branchTypes 5) s' polled s'' ∧
    ∃ t, s''.db.cur.row 5 = some t ∧ (t.state = .failed ∨ t.state = .cancelled) := by
  have hp : Path (Sys.step branchTypes) anyStep (Sys.init branch) cancelling (reached _ _ _ _) :=
    path_reached (by decide +kernel)
  have hs : (reached (Sys.step branchTypes) anyStep (Sys.init branch) cancelling).step branchTypes
      (.db (.commit 0)) = some (reached (Sys.step branchTypes) anyStep (Sys.init branch)
        (cancelling ++ [.db (.commit 0)])) := step_reached (by decide +kernel)
  have hp' : Path (Sys.step branchTypes) (Unrevived branchTypes 5)
      (reached (Sys.step branchTypes) anyStep (Sys.init branch) (cancelling ++ [.db (.commit 0)]))
      polled (reached _ _ _ _) := path_reached (by decide +kernel)
  have hid : ∃ t ∈ branch.rows, t.id = 1 := by decide
  obtain ⟨-, hcancels, hrest⟩ := @action_cancel_subtree branchTypes _ _ (·.createUid = 2) _ _ 0 200
    1 _ (Start.init (by decide)) hp rfl rfl hs
  obtain ⟨t, -, ht⟩ := hcancels.reached 4 ((cancelled_iff hid).1 (by decide))
  have hbelow : Below branch.rows 1 5 := .single (by unfold ChildOf; decide)
  refine ⟨_, _, _, hp, hs, by rw [ht]; rfl, hp', _, rfl, ?_⟩
  exact (hrest 5 _ hbelow rfl).2 rfl (by decide) _ _ _ hp' rfl

/-- Below a failed task, and at the task of the other user, the cascade has stopped, and the poll
then puts the failed task back. -/
theorem branch_revived : ∃ s s', Path (Sys.step branchTypes) anyStep (Sys.init branch)
      (cancelling ++ [.db (.commit 0)]) s ∧
    (s.db.cur.row 1).map Task.state = some .cancelled ∧
    Below branch.rows 1 3 ∧ (s.db.cur.row 3).map Task.state = some .pending ∧
    Below branch.rows 1 6 ∧ (s.db.cur.row 6).map Task.state = some .pending ∧
    Below branch.rows 1 2 ∧ (s.db.cur.row 2).map Task.state = some .failed ∧
    Path (Sys.step branchTypes) anyStep s polled s' ∧
    (s'.db.cur.row 2).map Task.state = some .pending := by
  have hp : Path (Sys.step branchTypes) anyStep (Sys.init branch)
      (cancelling ++ [.db (.commit 0)]) (reached _ _ _ _) := path_reached (by decide +kernel)
  have hp' : Path (Sys.step branchTypes) anyStep
      (reached (Sys.step branchTypes) anyStep (Sys.init branch) (cancelling ++ [.db (.commit 0)]))
      polled (reached _ _ _ _) := path_reached (by decide +kernel)
  have h2 : Below branch.rows 1 2 := .single (by unfold ChildOf; decide)
  have h3 : ChildOf branch.rows 2 3 := by unfold ChildOf; decide
  have h6 : Below branch.rows 1 6 := .single (by unfold ChildOf; decide)
  exact ⟨_, _, hp, by decide +kernel, .tail h2 h3, by decide +kernel, h6, by decide +kernel, h2,
    by decide +kernel, hp', by decide +kernel⟩

end GenericTaskQueue
