import GenericBackground.TaskQueue.Cancellation

/-!
# Reports of finished children

When a task thread has committed `action_done`, it calls `on_child_done` of the parent in a further
transaction (phase 3 of `_task_thread_target`). A check of the parent by a worker is a transaction
of its own, and nothing orders it after that call. A child that a parent check completes is not
reported at all.

Every child that is done is reported before a check of its parent finds all children done or
cancelled, if the checks and the calls do not overlap and no report is left out
(`Reporting.orderly`).
-/

namespace GenericTaskQueue

open RowStore Lts

variable {reg : Registry} {s s' : Sys} {ev : Ev} {k : TaskId}

/-! ## How a step changes one task -/

def RowAct.finishes : RowAct → Bool
  | .done _ _ _ => true
  | .move _ (.done _) => true
  | _ => false

/-- The statement takes a waiting task out of `waiting`, and does not complete it. -/
def RowAct.abandons : RowAct → Bool
  | .user (.actionCancel _) => true
  | .user .unlink => true
  | .move _ (.fail _) => true
  | .move _ .cancel => true
  | _ => false

/-- What a statement does to the parent link, to a task that is not done, and to one that waits. -/
structure Moves (a : RowAct) (t t' : Task) : Prop where
  parent : t'.parentId = t.parentId
  done : t'.state = .done → t.state = .done ∨ a.finishes = true
  waiting : t.state = .waiting → t'.state = .waiting ∨ a.abandons = true ∨
    ∃ now result, a = .move now (.done result)

theorem Moves.same {a : RowAct} {t t' : Task} (hp : t'.parentId = t.parentId)
    (hs : t'.state = t.state) : Moves a t t' :=
  ⟨hp, fun h => .inl (hs ▸ h), fun h => .inl (hs.trans h)⟩

theorem Moves.landed {a : RowAct} {t t' : Task} (hp : t'.parentId = t.parentId)
    (hs : t'.state ≠ .done) (hw : t.state ≠ .waiting) : Moves a t t' :=
  ⟨hp, fun h => absurd h hs, fun h => absurd h hw⟩

theorem Moves.checked {a : RowAct} {t u v : Task} {c : TaskState}
    (h : (do checkTransition c t; return u : Except TaskError Task) = .ok v)
    (hp : u.parentId = t.parentId) (hs : u.state = c) (hd : c ≠ .done)
    (hw : c ∉ allowedTransitions .waiting) : Moves a t v := by
  obtain ⟨hc, rfl⟩ := checked_ok h
  refine .landed hp (by rw [hs]; exact hd) fun h => hw ?_
  rwa [h] at hc

theorem UserAct.moves {u : UserAct} {t : Task} {o : Option Task} (h : u.onTask t = .ok o) :
    (o = none ∧ u = .unlink) ∨ ∃ t', o = some t' ∧ Moves (.user u) t t' := by
  cases u with
  | create v => cases h
  | lookupUniqueKey key => exact .inr ⟨t, (Except.ok.inj h).symm, .same rfl rfl⟩
  | write v => exact .inr ⟨_, (Except.ok.inj h).symm, .same rfl rfl⟩
  | storePhaseData vals => exact .inr ⟨_, (Except.ok.inj h).symm, .same rfl rfl⟩
  | enterPhase phase childIds => exact .inr ⟨_, (Except.ok.inj h).symm, .same rfl rfl⟩
  | actionCancel now =>
    obtain ⟨v, hv, rfl⟩ := map_some_ok h
    obtain ⟨-, rfl⟩ := checked_ok hv
    exact .inr ⟨_, rfl, ⟨rfl, nofun, fun _ => .inr (.inl rfl)⟩⟩
  | actionRetry eta =>
    obtain ⟨v, hv, rfl⟩ := map_some_ok h
    obtain ⟨hf, rfl⟩ := actionRetry_ok hv
    exact .inr ⟨_, rfl, .landed rfl nofun (by rw [hf]; exact nofun)⟩
  | unlink => exact .inl ⟨(Except.ok.inj h).symm, rfl⟩

theorem RowAct.moves {a : RowAct} {t : Task} {o : Option Task} (hs : a.selects (some t) = true)
    (h : a.run reg (some t) = .ok o) :
    (o = none ∧ a = .user .unlink) ∨ ∃ t', o = some t' ∧ Moves a t t' := by
  change a.onTask reg t = .ok o at h
  have one : ∀ {x : Except TaskError Task}, x.map some = .ok o → (∀ u, x = .ok u → Moves a t u) →
      (o = none ∧ a = .user .unlink) ∨ ∃ t', o = some t' ∧ Moves a t t' := by
    intro x hm hx
    obtain ⟨u, hu, rfl⟩ := map_some_ok hm
    exact .inr ⟨u, rfl, hx u hu⟩
  have kept : ∀ {u : Task}, (.ok (some u) : Except TaskError (Option Task)) = .ok o →
      Moves a t u → (o = none ∧ a = .user .unlink) ∨ ∃ t', o = some t' ∧ Moves a t t' :=
    fun hu hm => .inr ⟨_, (Except.ok.inj hu).symm, hm⟩
  cases a with
  | user u =>
    rcases UserAct.moves h with ⟨ho, rfl⟩ | hm
    · exact .inl ⟨ho, rfl⟩
    · exact .inr hm
  | assign worker uuid =>
    refine one h fun u hu => ?_
    obtain ⟨hp, rfl⟩ := claimRow_eq hu
    exact .landed rfl nofun (by rw [hp]; exact nofun)
  | start now => exact one h fun u hu => .checked hu rfl rfl nofun (by decide)
  | stuck => exact one h fun u hu => .checked hu rfl rfl nofun (by decide)
  | waitChildren => exact one h fun u hu => .checked hu rfl rfl nofun (by decide)
  | progress value => exact kept h (.same rfl rfl)
  | done runner now result =>
    refine one h fun u hu => ?_
    obtain ⟨-, rfl⟩ := checked_ok hu
    exact ⟨rfl, fun _ => .inr rfl, fun hw => absurd hw (finalizable_ne hs (by decide))⟩
  | failure runner now exc traceback read =>
    refine one h fun u hu => ?_
    have hw : t.state ≠ .waiting := finalizable_ne hs (by decide)
    rcases handleFailure_cases hu with ⟨-, _, rfl⟩ | ⟨-, hu⟩
    · exact .landed rfl nofun hw
    · obtain ⟨-, rfl⟩ := checked_ok hu
      exact .landed rfl nofun hw
  | lostExecution runner worker now error =>
    refine one h fun u hu => ?_
    have hw : t.state ≠ .waiting := finalizable_ne hs (by decide)
    rcases handleLostExecution_cases hu with ⟨-, hu⟩ | ⟨-, -, rfl⟩ | ⟨-, -, hu⟩
    · obtain ⟨-, rfl⟩ := checked_ok hu
      exact .landed rfl nofun hw
    · exact .landed rfl nofun hw
    · obtain ⟨-, rfl⟩ := checked_ok hu
      exact .landed rfl nofun hw
  | autoRetry now =>
    have hf : t.state = .failed := autoRetryable_failed hs
    exact kept h (.landed rfl nofun (by rw [hf]; decide))
  | unown => exact kept h (.same rfl rfl)
  | lockWaiting => exact kept h (.same rfl rfl)
  | move now m =>
    cases m with
    | done result =>
      refine one h fun u hu => ?_
      obtain ⟨-, rfl⟩ := checked_ok hu
      exact ⟨rfl, fun _ => .inr rfl, fun _ => .inr (.inr ⟨now, result, rfl⟩)⟩
    | fail error =>
      refine one h fun u hu => ?_
      obtain ⟨-, rfl⟩ := checked_ok hu
      exact ⟨rfl, nofun, fun _ => .inr (.inl rfl)⟩
    | cancel =>
      refine one h fun u hu => ?_
      obtain ⟨-, rfl⟩ := checked_ok hu
      exact ⟨rfl, nofun, fun _ => .inr (.inl rfl)⟩

theorem Sys.parent_kept {t t' : Task} (hi : Inv reg s) (hd : Drawn s)
    (h : s.step reg ev = some s') (ht : s.db.cur.row k = some t)
    (ht' : s'.db.cur.row k = some t') : t'.parentId = t.parentId := by
  refine Sys.step_task (R := fun t t' : Task => t'.parentId = t.parentId) hi hd h (fun _ => rfl)
    (fun h1 h2 => h2.trans h1) (fun i x _ _ a _ t t' hs hr => ?_) ht ht'
  rcases RowAct.moves hs hr with ⟨ho, -⟩ | ⟨u, hu, hm⟩
  · cases ho
  · obtain rfl := Option.some.inj hu
    exact hm.parent

theorem Sys.final_kept {t t' : Task} (hi : Inv reg s) (hd : Drawn s)
    (h : s.step reg ev = some s') (hf : t.state = .done ∨ t.state = .cancelled)
    (ht : s.db.cur.row k = some t) (ht' : s'.db.cur.row k = some t') : t'.state = t.state :=
  final_stays (Sys.step_task hi hd h (fun _ => .refl) .trans
    (fun _ _ _ _ _ _ _ _ hs hr => .single (RowAct.conforms hs hr)) ht ht') hf

/-- A task is completed by the execution of its thread, or by a check of a waiting parent. -/
theorem Sys.newly_done {t t' : Task} (hi : Inv reg s) (hd : Drawn s)
    (h : s.step reg ev = some s') (ht : s.db.cur.row k = some t)
    (ht' : s'.db.cur.row k = some t') (hs : t.state ≠ .done) (hs' : t'.state = .done) :
    ∃ i x, ev = .db (.commit i) ∧ s.db.txns i = some x ∧
      ((∃ r now body result, x.act = .execute r k now body (.returns result)) ∨
        ∃ now body result, x.act = .checkWaitingParent k now body (some (.done result))) := by
  by_contra hno
  refine hs (Sys.step_task (R := fun t t' : Task => t'.state = .done → t.state = .done) hi hd h
    (fun _ h => h) (fun h1 h2 h => h1 (h2 h)) (fun i x hev hx a hm u u' hsel hr hu' => ?_)
    ht ht' hs')
  rcases RowAct.moves hsel hr with ⟨ho, -⟩ | ⟨v, hv, hmv⟩
  · cases ho
  · obtain rfl := Option.some.inj hv
    refine (hmv.done hu').resolve_right fun hf => hno ⟨i, x, hev, hx, ?_⟩
    -- the two statements that complete a task
    have hissue := stmts_issues (mem_acts.1 hm)
    generalize x.act = act at hissue
    cases hissue with
    | done r now body result => exact .inl ⟨r, now, body, result, rfl⟩
    | move now body m =>
      cases m with
      | done result => exact .inr ⟨now, body, result, rfl⟩
      | _ => cases hf
    | _ => cases hf

theorem Sys.inserted {t : Task} {p : TaskId} (hi : Inv reg s) (h : s.step reg ev = some s')
    (hn : s.db.cur.row k = none) (ht : s'.db.cur.row k = some t) (hp : t.parentId = some p) :
    ∃ i x v, ev = .db (.commit i) ∧ s.db.txns i = some x ∧ (k, .create v) ∈ x.act.body ∧
      v.parentId = some p := by
  rcases Sys.row_run hi h k with hsame | ⟨i, x, b, hev, hx, -, hrun⟩
  · rw [hsame, hn] at ht
    cases ht
  · suffices hins : ∃ v, (k, UserAct.create v) ∈ x.act.body ∧ v.parentId = some p by
      obtain ⟨v, hv, hvp⟩ := hins
      exact ⟨i, x, v, hev, hx, hv, hvp⟩
    by_contra hno
    refine runActs_rel (R := fun o o' => (∀ t, o = some t → t.parentId ≠ some p) →
      ∀ t, o' = some t → t.parentId ≠ some p) (fun _ h => h) (fun h1 h2 h => h2 (h1 h))
      (fun a hm o o' hs hr hno' t' ht' => ?_) hrun (by simp [hn]) t ht hp
    subst ht'
    cases o with
    | some u =>
      rcases RowAct.moves hs hr with ⟨ho, -⟩ | ⟨v, hv, hmv⟩
      · cases ho
      · obtain rfl := Option.some.inj hv
        rw [hmv.parent]
        exact hno' u rfl
    | none =>
      intro hp'
      cases a with
      | user u =>
        cases u with
        | create v =>
          obtain rfl := Option.some.inj (Except.ok.inj hr)
          obtain ⟨w, hw, heq⟩ := user_stmts (mem_acts.1 hm)
          cases w with
          | create w =>
            obtain rfl := UserAct.create.inj heq
            exact hno ⟨w, hw, hp'⟩
          | _ => cases heq
        | _ => cases hr
      | _ => cases hr

/-! ## The system -/

def Sys.waits (s : Sys) (p : TaskId) : Bool := (s.db.cur.row p).any (·.state = .waiting)

theorem Sys.waits_iff {p : TaskId} :
    s.waits p = true ↔ ∃ t, s.db.cur.row p = some t ∧ t.state = .waiting := by
  simp [Sys.waits, Option.any_eq_true]

theorem Sys.waits_kept {p : TaskId} (hi : Inv reg s) (h : s.step reg ev = some s')
    (hw : s.waits p = true) (ha : ∀ a ∈ s.stmtsOn reg p ev, a.abandons = false) :
    s'.waits p = true ∨ ∃ i x now body result, ev = .db (.commit i) ∧ s.db.txns i = some x ∧
      x.act = .checkWaitingParent p now body (some (.done result)) := by
  obtain ⟨t, ht, hst⟩ := Sys.waits_iff.1 hw
  rcases Sys.row_run hi h p with hsame | ⟨i, x, b, rfl, hx, -, hrun⟩
  · left
    rw [Sys.waits, hsame]
    exact hw
  · rw [stmtsOn_commit hx] at ha
    by_contra hno
    obtain ⟨hnw, hno⟩ := not_or.1 hno
    refine hnw (Sys.waits_iff.2 (runActs_rel (R := fun o o' => (∃ t, o = some t ∧
      t.state = .waiting) → ∃ t, o' = some t ∧ t.state = .waiting) (fun _ h => h)
      (fun h1 h2 h => h2 (h1 h)) (fun a hm o o' hs hr => ?_) hrun ⟨t, ht, hst⟩))
    rintro ⟨u, rfl, hu⟩
    rcases RowAct.moves hs hr with ⟨-, rfl⟩ | ⟨v, hv, hmv⟩
    · cases ha _ hm
    · rcases hmv.waiting hu with hv' | hab | ⟨now, result, rfl⟩
      · exact ⟨v, hv, hv'⟩
      · rw [ha a hm] at hab
        cases hab
      · refine absurd ?_ hno
        have hissue := stmts_issues (mem_acts.1 hm)
        generalize hact : x.act = act at hissue
        cases hissue with
        | move now body m => exact ⟨i, x, now, body, result, rfl, hx, hact⟩

def childrenOf (σ : Snapshot TaskId Task) (p : TaskId) : List Task :=
  Query.select keyLE (fun t => t.parentId = some p) σ.table

/-- Every child is done or cancelled: `_check_waiting_parent` calls `on_all_children_done`, or
completes a parent without children. -/
def allResolved (σ : Snapshot TaskId Task) (p : TaskId) : Prop :=
  ∀ t ∈ σ.table, t.parentId = some p → t.state = .done ∨ t.state = .cancelled

instance (σ : Snapshot TaskId Task) (p : TaskId) : Decidable (allResolved σ p) := by
  unfold allResolved; infer_instance

/-- The transaction does what `_check_waiting_parent` does on the children that it reads; once all
are done or cancelled, the hook decides. -/
def Tx.asChecked (σ : Snapshot TaskId Task) : Tx → Bool
  | .checkWaitingParent p _ body verdict =>
    let children := childrenOf σ p
    if children = [] then body = [] ∧ verdict = some (.done none)
    else if children.any (·.state ∈ activeStates) then body = [] ∧ verdict = none
    else if children.any nonRetriable then verdict = some (.fail (some ("Child tasks failed: " ++
      ", ".intercalate ((children.filter nonRetriable).map Task.name))))
    else if children.any (·.state = .failed) then body = [] ∧ verdict = none
    else true
  | _ => true

def Tx.checks (p : TaskId) : Tx → Bool
  | .checkWaitingParent id _ _ _ => id = p
  | _ => false

abbrev Link := TaskId × TaskId

/-- The system with the calls of `on_child_done`: those due (the thread has committed
`action_done`), the transactions in which one is made, and those that are over. Two histories are
kept: the calls that were over when a transaction began, and the children that became done under a
waiting parent. -/
structure Reporting where
  sys : Sys
  due : List Link
  calls : ℕ → Option Link
  called : List Link
  before : ℕ → List Link
  ended : List Link

/-- `notify` begins phase 3 of a task thread, whose hook does `body`; `die` is the end of its
process before that. -/
inductive ReportEv where
  | sys (ev : Ev)
  | notify (c p : TaskId) (body : List (TaskId × UserAct))
  | die (c p : TaskId)

/-- The transaction that the step closes. -/
def Ev.closes : Ev → Option ℕ
  | .db (.commit i) => some i
  | .db (.abort i) => some i
  | _ => none

def Sys.becomesDone (s s' : Sys) (c : TaskId) : Bool :=
  (s.db.cur.row c).any (·.state ≠ .done) && (s'.db.cur.row c).any (·.state = .done)

/-- The child whose `action_done` by its thread the step commits: `_notify_parent` is set. -/
def Sys.finished (s s' : Sys) : Ev → List Link
  | .db (.commit i) => (s.db.txns i).elim [] fun x => match x.act with
    | .execute _ c _ _ (.returns _) =>
      if s.becomesDone s' c then
        ((s'.db.cur.row c).bind Task.parentId).toList.map fun p => (c, p)
      else []
    | _ => []
  | _ => []

/-- The children that become done in the step under a parent that waits. -/
def Sys.endedUnder (s s' : Sys) : List Link :=
  s.db.cur.keys.filterMap fun c =>
    if s.becomesDone s' c then
      (((s'.db.cur.row c).bind Task.parentId).filter fun p => s.waits p && s'.waits p).map
        fun p => (c, p)
    else none

theorem Sys.becomesDone_iff : s.becomesDone s' k = true ↔ ∃ t t', s.db.cur.row k = some t ∧
    s'.db.cur.row k = some t' ∧ t.state ≠ .done ∧ t'.state = .done := by
  simp only [Sys.becomesDone, Bool.and_eq_true, Option.any_eq_true, decide_eq_true_eq]
  constructor
  · rintro ⟨⟨t, ht, hs⟩, t', ht', hs'⟩
    exact ⟨t, t', ht, ht', hs, hs'⟩
  · rintro ⟨t, t', ht, ht', hs, hs'⟩
    exact ⟨⟨t, ht, hs⟩, t', ht', hs'⟩

def Ends (s s' : Sys) (c p : TaskId) : Prop :=
  ∃ t t', s.db.cur.row c = some t ∧ s'.db.cur.row c = some t' ∧ t.state ≠ .done ∧
    t'.state = .done ∧ t'.parentId = some p

theorem Sys.ends_of_finished {c p : TaskId} (h : (c, p) ∈ s.finished s' ev) : Ends s s' c p := by
  unfold Sys.finished at h
  split at h
  · next i =>
    cases hx : s.db.txns i with
    | none => simp [hx] at h
    | some x =>
      simp only [hx, Option.elim_some] at h
      split at h
      · split_ifs at h with hb
        · obtain ⟨t, t', ht, ht', hs, hs'⟩ := Sys.becomesDone_iff.1 hb
          rw [ht'] at h
          simp only [Option.bind_some, List.mem_map, Option.mem_toList, Prod.mk.injEq] at h
          obtain ⟨q, hq, rfl, rfl⟩ := h
          exact ⟨t, t', ht, ht', hs, hs', hq⟩
        · cases h
      · cases h
  · cases h

theorem Sys.mem_finished {c p r now : ℕ} {i : ℕ} {x : Txn Tx TaskId Task}
    {body : List (TaskId × UserAct)} {result : Option Json} (hx : s.db.txns i = some x)
    (ha : x.act = .execute r c now body (.returns result)) (h : Ends s s' c p) :
    (c, p) ∈ s.finished s' (.db (.commit i)) := by
  obtain ⟨t, t', ht, ht', hs, hs', hp⟩ := h
  have hb : s.becomesDone s' c = true := Sys.becomesDone_iff.2 ⟨t, t', ht, ht', hs, hs'⟩
  simp [Sys.finished, hx, ha, hb, ht', hp]

theorem Sys.mem_endedUnder {c p : TaskId} (h : (c, p) ∈ s.endedUnder s') :
    Ends s s' c p ∧ s.waits p = true ∧ s'.waits p = true := by
  obtain ⟨c', -, h⟩ := List.mem_filterMap.1 h
  split_ifs at h with hb
  obtain ⟨t, t', ht, ht', hs, hs'⟩ := Sys.becomesDone_iff.1 hb
  obtain ⟨q, hq, heq⟩ := Option.map_eq_some_iff.1 h
  obtain ⟨rfl, rfl⟩ := Prod.mk.inj heq
  obtain ⟨hq, hw⟩ := Option.filter_eq_some_iff.1 hq
  rw [ht', Option.bind_some] at hq
  obtain ⟨hw, hw'⟩ := Bool.and_eq_true_iff.1 hw
  exact ⟨⟨t, t', ht, ht', hs, hs', hq⟩, hw, hw'⟩

theorem Ends.of_same {c p : TaskId} (hc : s'.db.cur = s.db.cur) : ¬ Ends s s' c p := by
  rintro ⟨t, t', ht, ht', hs, hs', -⟩
  rw [hc, ht] at ht'
  obtain rfl := Option.some.inj ht'
  exact hs hs'

theorem resolved_of_done {σ : Snapshot TaskId Task} {p : TaskId} {now : ℕ}
    {body : List (TaskId × UserAct)} {result : Option Json}
    (h : (Tx.checkWaitingParent p now body (some (.done result))).asChecked σ = true) :
    allResolved σ p := by
  intro t ht hp
  have hm : t ∈ childrenOf σ p := by
    unfold childrenOf
    rw [Query.mem_select]
    exact ⟨ht, decide_eq_true hp⟩
  simp only [Tx.asChecked] at h
  split_ifs at h with hnil hact hnon hfail
  · rw [hnil] at hm
    cases hm
  · simp at h
  · simp at h
  · simp at h
  · have hna : t.state ∉ activeStates := fun ha => hact (List.any_eq_true.2 ⟨t, hm, by simpa⟩)
    have hnf : t.state ≠ .failed := fun hf => hfail (List.any_eq_true.2 ⟨t, hm, by simpa⟩)
    cases hs : t.state <;> simp [hs, activeStates] at hna hnf ⊢

namespace Reporting

def after (s : Reporting) (ev : Ev) (sys : Sys) : Reporting where
  sys := sys
  due := s.due ++ s.sys.finished sys ev
  calls := match ev.closes with
    | some i => Function.update s.calls i none
    | none => s.calls
  called := s.called ++ (ev.closes.bind s.calls).toList
  before := Function.update s.before s.sys.db.nextId s.called
  ended := s.ended ++ s.sys.endedUnder sys

/-- A check begins as the code decides on what it reads. -/
def agrees (s : Reporting) : Ev → Bool
  | .db (.begin a) => a.asChecked s.sys.db.cur
  | _ => true

/-- One step. Phase 3 calls the hook if it finds the parent waiting. -/
def step (reg : Registry) (s : Reporting) : ReportEv → Option Reporting
  | .sys ev => if s.agrees ev then (s.sys.step reg ev).map (s.after ev) else none
  | .notify c p body =>
    if (c, p) ∈ s.due then
      if s.sys.waits p then (s.sys.step reg (.db (.begin (.user body)))).map fun sys =>
        { s with
          sys := sys
          due := s.due.erase (c, p)
          calls := Function.update s.calls s.sys.db.nextId (some (c, p))
          before := Function.update s.before s.sys.db.nextId s.called }
      else some { s with due := s.due.erase (c, p) }
    else none
  | .die c p => if (c, p) ∈ s.due then some { s with due := s.due.erase (c, p) } else none

/-! ## The order that the code does not keep -/

/-- The calls due or open, but for that of transaction `i`. -/
def outstanding (s : Reporting) (i : ℕ) : List Link :=
  s.due ++ (List.range s.sys.db.nextId).filterMap fun j => if j = i then none else s.calls j

/-- Another transaction than `i` checks parent `p`, and has found all children resolved. -/
def resolving (s : Reporting) (i : ℕ) (p : TaskId) : Bool :=
  (List.range s.sys.db.nextId).any fun j => j ≠ i && (s.sys.db.txns j).any fun y =>
    y.act.checks p && allResolved y.snap p

/-- No check completes a task whose own parent waits. -/
def completesLeaf (s : Reporting) : ReportEv → Bool
  | .sys (.db (.commit i)) => (s.sys.db.txns i).all fun x => match x.act with
    | .checkWaitingParent c _ _ (some (.done _)) =>
      ((s.sys.db.cur.row c).bind Task.parentId).all fun p => !s.sys.waits p
    | _ => true
  | _ => true

/-- No process ends between the last commit of a child and its report to a waiting parent. -/
def survives (s : Reporting) : ReportEv → Bool
  | .die _ p => !s.sys.waits p
  | _ => true

/-- No check that finds all children resolved begins while a call for one of them is due or open. -/
def checksAfter (s : Reporting) : ReportEv → Bool
  | .sys (.db (.begin (.checkWaitingParent p _ _ _))) => allResolved s.sys.db.cur p →
    ∀ l ∈ s.outstanding s.sys.db.nextId, l.2 ≠ p
  | _ => true

/-- No child is inserted while another transaction makes such a check of its parent. -/
def insertsApart (s : Reporting) : ReportEv → Bool
  | .sys (.db (.commit i)) => (s.sys.db.txns i).all fun x => x.act.body.all fun b => match b.2 with
    | .create v => v.parentId.all fun p => !s.resolving i p
    | _ => true
  | _ => true

/-- No parent is cancelled, failed or deleted while a call for a child is due or open. -/
def keepsParents (reg : Registry) (s : Reporting) : ReportEv → Bool
  | .sys (.db (.commit i)) => (s.outstanding i).all fun l =>
    (s.sys.stmtsOn reg l.2 (.db (.commit i))).all fun a => !a.abandons
  | _ => true

/-- The step keeps the reports and the checks of a parent apart, and leaves no report out. -/
def orderly (reg : Registry) (s : Reporting) (ev : ReportEv) : Prop :=
  (s.completesLeaf ev && s.survives ev && s.checksAfter ev && s.insertsApart ev &&
    s.keepsParents reg ev) = true

instance (reg : Registry) (s : Reporting) (ev : ReportEv) : Decidable (s.orderly reg ev) := by
  unfold orderly; infer_instance

/-- The system starts, and no thread has ended yet. -/
structure Start (s : Reporting) : Prop where
  sys : GenericTaskQueue.Start s.sys
  due : s.due = []
  calls : ∀ i, s.calls i = none
  ended : s.ended = []

/-! ## The invariant -/

/-- What holds while transaction `i`, a check of parent `p`, is open and has found all children
resolved: nothing more happens to the children. -/
structure Quiet (s : Reporting) (i : ℕ) (p : TaskId) : Prop where
  due : ∀ c, (c, p) ∉ s.due
  calls : ∀ c j, s.calls j ≠ some (c, p)
  reported : ∀ c, (c, p) ∈ s.ended → (c, p) ∈ s.before i
  resolved : ∀ c t, s.sys.db.cur.row c = some t → t.parentId = some p →
    t.state = .done ∨ t.state = .cancelled

structure Ok (reg : Registry) (s : Reporting) : Prop where
  inv : Inv reg s.sys
  drawn : Drawn s.sys
  agreed : ∀ i x, s.sys.db.txns i = some x → x.act.asChecked x.snap = true
  named : ∀ i l, s.calls i = some l → i < s.sys.db.nextId
  final : ∀ c p, (c, p) ∈ s.ended → Known c s.sys ∧
    ∀ t, s.sys.db.cur.row c = some t → t.state = .done
  covered : ∀ l ∈ s.ended, l ∈ s.due ∨ (∃ i, s.calls i = some l) ∨ l ∈ s.called
  dueWaits : ∀ c p, (c, p) ∈ s.due → (c, p) ∈ s.ended → s.sys.waits p = true
  callWaits : ∀ i c p, s.calls i = some (c, p) → s.sys.waits p = true
  quiet : ∀ i x p, s.sys.db.txns i = some x → x.act.checks p = true → allResolved x.snap p →
    s.Quiet i p

theorem Start.ok {s : Reporting} (h : s.Start) : s.Ok reg where
  inv := h.sys.inv
  drawn := h.sys.drawn
  agreed _ _ hx := absurd hx h.sys.closed
  named i l hl := by rw [h.calls i] at hl; cases hl
  final c p hl := by rw [h.ended] at hl; cases hl
  covered l hl := by rw [h.ended] at hl; cases hl
  dueWaits c p hl := by rw [h.due] at hl; cases hl
  callWaits i c p hl := by rw [h.calls i] at hl; cases hl
  quiet _ _ _ hx := absurd hx h.sys.closed

variable {s s' : Reporting} {sys' : Sys} {ev : Ev} {i : ℕ} {c p : TaskId}
  {x : Txn Tx TaskId Task}

theorem mem_outstanding {l : Link} : l ∈ s.outstanding i ↔
    l ∈ s.due ∨ ∃ j < s.sys.db.nextId, j ≠ i ∧ s.calls j = some l := by
  unfold outstanding
  rw [List.mem_append, List.mem_filterMap]
  refine or_congr Iff.rfl ⟨?_, ?_⟩
  · rintro ⟨j, hj, h⟩
    split_ifs at h with hji
    exact ⟨j, List.mem_range.1 hj, hji, h⟩
  · rintro ⟨j, hj, hji, h⟩
    exact ⟨j, List.mem_range.2 hj, by rw [if_neg hji, h]⟩

/-- Under a parent whose children are all resolved, none becomes done. -/
theorem Quiet.not_ends (ho : s.Ok reg) (hq : s.Quiet i p) (h : s.sys.step reg ev = some sys') :
    ¬ Ends s.sys sys' c p := by
  rintro ⟨t, t', ht, ht', hs, hs', hp⟩
  have hpar := Sys.parent_kept ho.inv ho.drawn h ht ht'
  have hres := hq.resolved c t ht (hpar ▸ hp)
  have hkept := Sys.final_kept ho.inv ho.drawn h hres ht ht'
  exact hs (hkept ▸ hs')

theorem after_calls {l : Link} (h : (s.after ev sys').calls i = some l) :
    s.calls i = some l ∧ ev.closes ≠ some i := by
  cases hcl : ev.closes with
  | none =>
    simp only [Reporting.after, hcl] at h
    exact ⟨h, nofun⟩
  | some j =>
    simp only [Reporting.after, hcl] at h
    by_cases hij : i = j
    · rw [hij, Function.update_self] at h
      cases h
    · rw [Function.update_of_ne hij] at h
      exact ⟨h, fun hji => hij (Option.some.inj hji).symm⟩

theorem Quiet.after (ho : s.Ok reg) (hq : s.Quiet i p) (hx : s.sys.db.txns i = some x)
    (hchk : x.act.checks p = true) (hres : allResolved x.snap p)
    (hins : s.insertsApart (.sys ev) = true) (h : s.sys.step reg ev = some sys')
    (hopen : ev ≠ .db (.commit i)) : (s.after ev sys').Quiet i p := by
  have hno : ∀ c, ¬ Ends s.sys sys' c p := fun c => hq.not_ends ho h
  have hlt := ho.inv.wf.bound i x hx
  refine ⟨fun c hc => ?_, fun c j hj => ?_, fun c hc => ?_, fun c t ht hp => ?_⟩
  · exact (List.mem_append.1 hc).elim (hq.due c) fun hc => hno c (Sys.ends_of_finished hc)
  · exact hq.calls c j (after_calls hj).1
  · show (c, p) ∈ Function.update s.before s.sys.db.nextId s.called i
    rw [Function.update_of_ne (Nat.ne_of_lt hlt)]
    exact (List.mem_append.1 hc).elim (hq.reported c) fun hc =>
      absurd (Sys.mem_endedUnder hc).1 (hno c)
  · have ht : sys'.db.cur.row c = some t := ht
    cases hrow : s.sys.db.cur.row c with
    | none =>
      -- a child that is inserted: another transaction does it, and not now
      obtain ⟨j, y, v, rfl, hy, hv, hvp⟩ := Sys.inserted ho.inv h hrow ht hp
      have hji : i ≠ j := fun hij => hopen (hij ▸ rfl)
      simp only [insertsApart, hy, Option.all_some, List.all_eq_true] at hins
      have := hins _ hv
      simp only [hvp, Option.all_some, Bool.not_eq_true', Bool.eq_false_iff] at this
      refine absurd (List.any_eq_true.2 ⟨i, List.mem_range.2 hlt, ?_⟩) this
      simp [hji, hx, hchk, hres]
    | some u =>
      have hpar := Sys.parent_kept ho.inv ho.drawn h hrow ht
      have hfin := hq.resolved c u hrow (hpar ▸ hp)
      have hkept := Sys.final_kept ho.inv ho.drawn h hfin hrow ht
      rwa [hkept]

theorem Quiet.begin (ho : s.Ok reg) (hres : allResolved s.sys.db.cur p)
    (hout : ∀ l ∈ s.outstanding s.sys.db.nextId, l.2 ≠ p) {a : Tx}
    (hcur : sys'.db.cur = s.sys.db.cur) :
    (s.after (.db (.begin a)) sys').Quiet s.sys.db.nextId p := by
  have hdue : ∀ c, (c, p) ∉ s.due := fun c hc => hout _ (mem_outstanding.2 (.inl hc)) rfl
  have hcalls : ∀ c j, s.calls j ≠ some (c, p) := fun c j hj => by
    have hlt := ho.named j _ hj
    exact hout _ (mem_outstanding.2 (.inr ⟨j, hlt, Nat.ne_of_lt hlt, hj⟩)) rfl
  refine ⟨fun c hc => ?_, fun c j hj => hcalls c j hj, fun c hc => ?_, fun c t ht hp => ?_⟩
  · exact (List.mem_append.1 hc).elim (hdue c) fun hc =>
      absurd (Sys.ends_of_finished hc) (Ends.of_same hcur)
  · show (c, p) ∈ Function.update s.before s.sys.db.nextId s.called s.sys.db.nextId
    rw [Function.update_self]
    have hc : (c, p) ∈ s.ended := (List.mem_append.1 hc).elim id fun hc =>
      absurd (Sys.mem_endedUnder hc).1 (Ends.of_same hcur)
    rcases ho.covered _ hc with hd | ⟨j, hj⟩ | hc
    · exact absurd hd (hdue c)
    · exact absurd hj (hcalls c j)
    · exact hc
  · have ht : s.sys.db.cur.row c = some t := hcur ▸ ht
    exact hres t ((Snapshot.mem_table ho.inv.wf.cur).2 ⟨c, ht⟩) hp

theorem Ok.final_step (ho : s.Ok reg) (h : s.sys.step reg ev = some sys')
    (hc : (c, p) ∈ s.ended) :
    Known c sys' ∧ ∀ t, sys'.db.cur.row c = some t → t.state = .done := by
  obtain ⟨hk, hd⟩ := ho.final c p hc
  refine ⟨hk.step h, hk.keeps ho.inv h (fun a _ t t' hsel hr ht => ?_) hd⟩
  exact (final_stays (.single (RowAct.conforms hsel hr)) (.inl ht)).trans ht

theorem Ok.waits_step (ho : s.Ok reg) (h : s.sys.step reg ev = some sys')
    (hkeep : s.keepsParents reg (.sys ev) = true)
    (hl : (c, p) ∈ s.due ∨ ∃ i, s.calls i = some (c, p) ∧ ev.closes ≠ some i)
    (hw : s.sys.waits p = true) : sys'.waits p = true := by
  have habandons : ∀ a ∈ s.sys.stmtsOn reg p ev, a.abandons = false := by
    intro a ha
    cases ev with
    | db e =>
      cases e with
      | commit i =>
        have hout : (c, p) ∈ s.outstanding i := mem_outstanding.2 <| hl.imp id fun ⟨j, hj, hne⟩ =>
          ⟨j, ho.named j _ hj, fun hji => hne (hji ▸ rfl), hj⟩
        simpa using List.all_eq_true.1 (List.all_eq_true.1 hkeep _ hout) a ha
      | _ => cases ha
    | _ => cases ha
  rcases Sys.waits_kept ho.inv h hw habandons with hw' | ⟨i, x, now, body, result, -, hx, ha⟩
  · exact hw'
  · -- a check that completes the parent: nothing is due or open under it
    have hq := ho.quiet i x p hx (by simp [ha, Tx.checks])
      (@resolved_of_done x.snap p now body result (ha ▸ ho.agreed i x hx))
    rcases hl with hd | ⟨j, hj, -⟩
    · exact absurd hd (hq.due c)
    · exact absurd hj (hq.calls c j)

/-- **Invariant**, for the steps of the system. -/
theorem Ok.sys (ho : s.Ok reg) (hag : s.agrees ev = true) (h : s.sys.step reg ev = some sys')
    (hord : s.orderly reg (.sys ev)) : (s.after ev sys').Ok reg := by
  simp only [orderly, Bool.and_eq_true] at hord
  obtain ⟨⟨⟨⟨hleaf, -⟩, hchecks⟩, hins⟩, hkeep⟩ := hord
  have hi' : Inv reg sys' := ho.inv.step h
  have hd' : Drawn sys' := ho.drawn.step ho.inv h
  exact {
    inv := hi'
    drawn := hd'
    agreed := fun i x hx => by
      rcases Sys.step_txn h hx with ⟨y, hy, hact, hsnap⟩ | ⟨rfl, hsnap, -⟩
      · rw [hact, hsnap]
        exact ho.agreed i y hy
      · rw [hsnap]
        exact hag
    named := fun i l hl =>
      Nat.lt_of_lt_of_le (ho.named i l (after_calls hl).1) (Sys.nextId_le h)
    final := fun c p hc => by
      rcases List.mem_append.1 hc with hc | hc
      · exact ho.final_step h hc
      · obtain ⟨⟨t, t', -, ht', -, hs', -⟩, -⟩ := Sys.mem_endedUnder hc
        exact ⟨.of_row hi' hd' ht', fun u hu => Option.some.inj (ht'.symm.trans hu) ▸ hs'⟩
    covered := fun l hl => by
      rcases List.mem_append.1 hl with hl | hl
      · rcases ho.covered l hl with hd | ⟨i, hi⟩ | hc
        · exact .inl (List.mem_append_left _ hd)
        · by_cases hcl : ev.closes = some i
          · exact .inr (.inr (List.mem_append_right _ (by simp [hcl, hi])))
          · refine .inr (.inl ⟨i, ?_⟩)
            cases hev : ev.closes with
            | none => simp only [Reporting.after, hev, hi]
            | some j =>
              have hij : i ≠ j := fun hij => hcl (by rw [hev, hij])
              simp only [Reporting.after, hev, Function.update_of_ne hij, hi]
        · exact .inr (.inr (List.mem_append_left _ hc))
      · obtain ⟨c, p⟩ := l
        obtain ⟨hends, hw, -⟩ := Sys.mem_endedUnder hl
        obtain ⟨t, t', ht, ht', hs, hs', hp⟩ := id hends
        obtain ⟨i, x, rfl, hx, ⟨r, now, body, result, ha⟩ | ⟨now, body, result, ha⟩⟩ :=
          Sys.newly_done ho.inv ho.drawn h ht ht' hs hs'
        · exact .inl (List.mem_append_right _ (Sys.mem_finished hx ha hends))
        · -- a check of the child: its own parent does not wait
          have hpar := Sys.parent_kept ho.inv ho.drawn h ht ht'
          simp [completesLeaf, hx, ha, ht, ← hpar, hp, hw] at hleaf
    dueWaits := fun c p hd he => by
      rcases List.mem_append.1 he with he | he
      · rcases List.mem_append.1 hd with hd | hd
        · exact ho.waits_step h hkeep (.inl hd) (ho.dueWaits c p hd he)
        · obtain ⟨t, t', ht, -, hs, -⟩ := Sys.ends_of_finished hd
          exact absurd ((ho.final c p he).2 t ht) hs
      · exact (Sys.mem_endedUnder he).2.2
    callWaits := fun i c p hl => by
      obtain ⟨hl, hcl⟩ := after_calls hl
      exact ho.waits_step h hkeep (.inr ⟨i, hl, hcl⟩) (ho.callWaits i c p hl)
    quiet := fun i x p hx hchk hres => by
      rcases Sys.step_txn h hx with ⟨y, hy, hact, hsnap⟩ | ⟨rfl, hsnap, hcur, -, rfl⟩
      · rw [hact] at hchk
        rw [hsnap] at hres
        refine (ho.quiet i y p hy hchk hres).after ho hy hchk hres hins h fun hev => ?_
        have hx : sys'.db.txns i = some x := hx
        rw [Sys.closed_txn h (.inl hev)] at hx
        cases hx
      · cases hact : x.act with
        | checkWaitingParent q now body verdict =>
          obtain rfl : q = p := by simpa [hact, Tx.checks] using hchk
          rw [hsnap] at hres
          simp only [hact, checksAfter, decide_eq_true_eq] at hchecks
          exact .begin ho hres (hchecks hres) hcur
        | _ => simp [hact, Tx.checks] at hchk }

theorem Ok.drop (ho : s.Ok reg) (hw : s.sys.waits p = false) :
    { s with due := s.due.erase (c, p) : Reporting }.Ok reg where
  inv := ho.inv
  drawn := ho.drawn
  agreed := ho.agreed
  named := ho.named
  final := ho.final
  covered l hl := by
    rcases ho.covered l hl with hd | h
    · refine .inl ((List.mem_erase_of_ne ?_).2 hd)
      rintro rfl
      rw [ho.dueWaits c p hd hl] at hw
      cases hw
    · exact .inr h
  dueWaits c' p' hd := ho.dueWaits c' p' (List.mem_of_mem_erase hd)
  callWaits := ho.callWaits
  quiet i x p' hx hchk hres :=
    have hq := ho.quiet i x p' hx hchk hres
    ⟨fun c' hd => hq.due c' (List.mem_of_mem_erase hd), hq.calls, hq.reported, hq.resolved⟩

theorem Ok.notify {body : List (TaskId × UserAct)} (ho : s.Ok reg)
    (hdue : (c, p) ∈ s.due) (hw : s.sys.waits p = true)
    (h : s.sys.step reg (.db (.begin (.user body))) = some sys') :
    { s with
      sys := sys'
      due := s.due.erase (c, p)
      calls := Function.update s.calls s.sys.db.nextId (some (c, p))
      before := Function.update s.before s.sys.db.nextId s.called : Reporting }.Ok reg := by
  have hcur : sys'.db.cur = s.sys.db.cur := Sys.cur_eq h nofun
  have hwaits : ∀ q, sys'.waits q = s.sys.waits q := fun q => by rw [Sys.waits, hcur, Sys.waits]
  have hnext : s.sys.db.nextId < sys'.db.nextId := (Sys.step_of_db h).2.nextId_begin
  have hcalls : ∀ j l, Function.update s.calls s.sys.db.nextId (some (c, p)) j = some l →
      (j = s.sys.db.nextId ∧ l = (c, p)) ∨ s.calls j = some l := by
    intro j l hj
    by_cases hji : j = s.sys.db.nextId
    · rw [hji, Function.update_self] at hj
      exact .inl ⟨hji, (Option.some.inj hj).symm⟩
    · rw [Function.update_of_ne hji] at hj
      exact .inr hj
  exact {
    inv := ho.inv.step h
    drawn := ho.drawn.step ho.inv h
    agreed := fun i x hx => by
      rcases Sys.step_txn h hx with ⟨y, hy, hact, hsnap⟩ | ⟨hev, -⟩
      · rw [hact, hsnap]
        exact ho.agreed i y hy
      · rw [← Event.begin.inj (Ev.db.inj hev)]
        rfl
    named := fun i l hl => by
      rcases hcalls i l hl with ⟨rfl, -⟩ | hl
      · exact hnext
      · exact Nat.lt_trans (ho.named i l hl) hnext
    final := fun c' p' hc => ho.final_step h hc
    covered := fun l hl => by
      rcases ho.covered l hl with hd | ⟨i, hi⟩ | hc
      · by_cases hlc : l = (c, p)
        · exact .inr (.inl ⟨s.sys.db.nextId, by simp [hlc]⟩)
        · exact .inl ((List.mem_erase_of_ne hlc).2 hd)
      · refine .inr (.inl ⟨i, ?_⟩)
        show Function.update s.calls s.sys.db.nextId (some (c, p)) i = some l
        rw [Function.update_of_ne (Nat.ne_of_lt (ho.named i l hi)), hi]
      · exact .inr (.inr hc)
    dueWaits := fun c' p' hd he =>
      (hwaits p').trans (ho.dueWaits c' p' (List.mem_of_mem_erase hd) he)
    callWaits := fun i c' p' hl => by
      rw [hwaits]
      rcases hcalls i _ hl with ⟨-, hlc⟩ | hl
      · rw [(Prod.mk.inj hlc).2]
        exact hw
      · exact ho.callWaits i c' p' hl
    quiet := fun i x p' hx hchk hres => by
      rcases Sys.step_txn h hx with ⟨y, hy, hact, hsnap⟩ | ⟨hev, -⟩
      · have hlt := ho.inv.wf.bound i y hy
        rw [hact] at hchk
        rw [hsnap] at hres
        have hq := ho.quiet i y p' hy hchk hres
        refine ⟨fun c' hd => hq.due c' (List.mem_of_mem_erase hd), fun c' j hj => ?_,
          fun c' he => ?_, fun c' t ht hp => hq.resolved c' t (hcur ▸ ht) hp⟩
        · rcases hcalls j _ hj with ⟨-, hlc⟩ | hj
          · obtain ⟨rfl, rfl⟩ := Prod.mk.inj hlc
            exact hq.due _ hdue
          · exact hq.calls c' j hj
        · show (c', p') ∈ Function.update s.before s.sys.db.nextId s.called i
          rw [Function.update_of_ne (Nat.ne_of_lt hlt)]
          exact hq.reported c' he
      · rw [← Event.begin.inj (Ev.db.inj hev)] at hchk
        cases hchk }

/-- **Invariant.** Every orderly step keeps it. -/
theorem Ok.step {ev : ReportEv} (ho : s.Ok reg) (hord : s.orderly reg ev)
    (h : Reporting.step reg s ev = some s') : s'.Ok reg := by
  cases ev with
  | sys ev =>
    simp only [Reporting.step] at h
    split_ifs at h with hag
    obtain ⟨sys', hs, rfl⟩ := Option.map_eq_some_iff.1 h
    exact ho.sys hag hs hord
  | notify c p body =>
    simp only [Reporting.step] at h
    split_ifs at h with hdue hw
    · obtain ⟨sys', hs, rfl⟩ := Option.map_eq_some_iff.1 h
      exact ho.notify hdue hw hs
    · obtain rfl := Option.some.inj h
      exact ho.drop (by simpa using hw)
  | die c p =>
    simp only [Reporting.step] at h
    split_ifs at h with hdue
    obtain rfl := Option.some.inj h
    refine ho.drop ?_
    simp only [orderly, survives, Bool.and_eq_true] at hord
    simpa using hord.1.1.1.2

theorem Ok.path {s₀ : Reporting} {es : List ReportEv} (h0 : s₀.Start)
    (hp : Path (Reporting.step reg) (Reporting.orderly reg) s₀ es s) : s.Ok reg :=
  hp.inv (fun _ _ _ ho hord h => ho.step hord h) h0.ok

def init (T : Table) : Reporting := ⟨Sys.init T, [], fun _ => none, [], fun _ => [], []⟩

theorem Start.init {T : Table} (h : ∀ t ∈ T.rows, t.state ∉ inFlightStates) : (init T).Start :=
  ⟨GenericTaskQueue.Start.init h, rfl, fun _ => rfl, rfl⟩

end Reporting

/-! ## The result -/

/-- **Reports.** In an orderly run, a check of a parent that finds all children done or cancelled
begins when the call of `on_child_done` is over for every child that has become done under the
waiting parent; while the check is open every child is done or cancelled, those that such a call has
spawned included. Only such a check completes a parent, and a parent waits while a call for one of
its children is open. -/
theorem child_done_reported {s₀ s : Reporting} {es : List ReportEv} (h0 : s₀.Start)
    (hp : Path (Reporting.step reg) (Reporting.orderly reg) s₀ es s) :
    (∀ i x p, s.sys.db.txns i = some x → x.act.checks p = true → allResolved x.snap p →
      (∀ c, (c, p) ∈ s.ended → (c, p) ∈ s.before i) ∧
      ∀ c t, s.sys.db.cur.row c = some t → t.parentId = some p →
        t.state = .done ∨ t.state = .cancelled) ∧
    (∀ i x p now body result, s.sys.db.txns i = some x →
      x.act = .checkWaitingParent p now body (some (.done result)) → allResolved x.snap p) ∧
    ∀ i c p, s.calls i = some (c, p) → s.sys.waits p = true := by
  have ho : s.Ok reg := .path h0 hp
  refine ⟨fun i x p hx hchk hres => ?_, fun i x p now body result hx ha => ?_, ho.callWaits⟩
  · have hq := ho.quiet i x p hx hchk hres
    exact ⟨hq.reported, hq.resolved⟩
  · exact @resolved_of_done x.snap p now body result (ha ▸ ho.agreed i x hx)

def pair : Table where
  rows := [
    { id := 1, name := "root", typeCode := "export", state := .waiting, dateCreated := 10
      createUid := 2 },
    { id := 2, name := "part", typeCode := "export", parentId := some 1, dateCreated := 11
      createUid := 2 }]
  nodup := by simp

/-- The child is claimed and done. -/
def childDone : List ReportEv := [
  .sys (.db (.begin (.claimTask (exportClaim 1) id fun _ => 7))), .sys (.db (.lock 0)),
  .sys (.db (.commit 0)),
  .sys (.db (.begin (.actionStart 7 2 101))), .sys (.db (.lock 1)), .sys (.db (.commit 1)),
  .sys (.db (.begin (.execute 7 2 200 [] (.returns none)))), .sys (.db (.lock 2)),
  .sys (.db (.commit 2))]

/-- A check that completes the parent, up to its commit. -/
def checking (i : ℕ) : List ReportEv := [
  .sys (.db (.begin (.checkWaitingParent 1 300 [] (some (.done none))))), .sys (.db (.lock i))]

def reportedFirst : List ReportEv :=
  childDone ++ [.notify 2 1 [], .sys (.db (.commit 3))] ++ checking 4

theorem pair_reported : ∃ s, Path (Reporting.step branchTypes) (Reporting.orderly branchTypes)
      (Reporting.init pair) reportedFirst s ∧ (2, 1) ∈ s.ended ∧ (2, 1) ∈ s.before 4 := by
  have hp : Path (Reporting.step branchTypes) (Reporting.orderly branchTypes)
      (Reporting.init pair) reportedFirst (reached _ _ _ _) := path_reached (by decide +kernel)
  have hended : (2, 1) ∈ (reached (Reporting.step branchTypes) (Reporting.orderly branchTypes)
      (Reporting.init pair) reportedFirst).ended := by decide +kernel
  obtain ⟨hchecks, hdone, -⟩ := child_done_reported (.init (by decide)) hp
  exact ⟨_, hp, hended, (hchecks 4 _ 1 rfl rfl (hdone 4 _ 1 300 [] none rfl rfl)).1 2 hended⟩

/-- A child that waits itself, with a done child. -/
def nested : Table where
  rows := [
    { id := 1, name := "root", typeCode := "export", state := .waiting, dateCreated := 10
      createUid := 2 },
    { id := 2, name := "part", typeCode := "export", state := .waiting, parentId := some 1
      dateCreated := 11, createUid := 2 },
    { id := 3, name := "page", typeCode := "export", state := .done, parentId := some 2
      dateCreated := 12, createUid := 2 }]
  nodup := by simp

/-- The check of the child, and then that of its parent. -/
def nestedChecked : List ReportEv := [
  .sys (.db (.begin (.checkWaitingParent 2 200 [] (some (.done none))))), .sys (.db (.lock 0)),
  .sys (.db (.commit 0))] ++ checking 1

/-- A dependent that a hook spawns. -/
def dependent : TaskVals :=
  { id := 3, name := "merge", typeCode := "export", parentId := some 1, dateCreated := 250
    createUid := 2 }

/-- The check comes first, and the thread then does not call the hook; a child that a check
completes is not reported at all; and a check beside the call completes the parent under which the
hook then has spawned a child. -/
theorem pair_unreported :
    (∃ s s', Path (Reporting.step branchTypes) anyStep (Reporting.init pair)
        (childDone ++ checking 3) s ∧
      (s.sys.db.txns 3).any (fun x => x.act.checks 1 && allResolved x.snap 1) = true ∧
      (2, 1) ∈ s.ended ∧ (2, 1) ∉ s.before 3 ∧
      Path (Reporting.step branchTypes) anyStep s [.sys (.db (.commit 3)), .notify 2 1 []] s' ∧
      (s'.sys.db.cur.row 1).map Task.state = some .done ∧ s'.due = [] ∧ s'.called = [] ∧
      ∀ j < s'.sys.db.nextId, s'.calls j = none) ∧
    (∃ s, Path (Reporting.step branchTypes) anyStep (Reporting.init nested) nestedChecked s ∧
      (s.sys.db.txns 1).any (fun x => x.act.checks 1 && allResolved x.snap 1) = true ∧
      (2, 1) ∈ s.ended ∧ (2, 1) ∉ s.before 1 ∧ s.due = []) ∧
    ∃ s, Path (Reporting.step branchTypes) anyStep (Reporting.init pair)
        (childDone ++ [.notify 2 1 [(3, .create dependent)], .sys (.db (.lock 3))] ++ checking 4 ++
          [.sys (.db (.commit 4)), .sys (.db (.commit 3))]) s ∧
      (s.sys.db.cur.row 1).map Task.state = some .done ∧
      (s.sys.db.cur.row 3).map (fun t => (t.parentId, t.state)) = some (some 1, .pending) := by
  have h1 : Path (Reporting.step branchTypes) anyStep (Reporting.init pair)
      (childDone ++ checking 3) (reached _ _ _ _) := path_reached (by decide +kernel)
  have h1' : Path (Reporting.step branchTypes) anyStep
      (reached (Reporting.step branchTypes) anyStep (Reporting.init pair)
        (childDone ++ checking 3)) [.sys (.db (.commit 3)), .notify 2 1 []] (reached _ _ _ _) :=
    path_reached (by decide +kernel)
  have h2 : Path (Reporting.step branchTypes) anyStep (Reporting.init nested) nestedChecked
      (reached _ _ _ _) := path_reached (by decide +kernel)
  have h3 : Path (Reporting.step branchTypes) anyStep (Reporting.init pair)
      (childDone ++ [.notify 2 1 [(3, .create dependent)], .sys (.db (.lock 3))] ++ checking 4 ++
        [.sys (.db (.commit 4)), .sys (.db (.commit 3))]) (reached _ _ _ _) :=
    path_reached (by decide +kernel)
  exact ⟨⟨_, _, h1, by decide +kernel, by decide +kernel, by decide +kernel, h1',
      by decide +kernel, by decide +kernel, by decide +kernel, by decide +kernel⟩,
    ⟨_, h2, by decide +kernel, by decide +kernel, by decide +kernel, by decide +kernel⟩,
    ⟨_, h3, by decide +kernel, by decide +kernel⟩⟩

end GenericTaskQueue
