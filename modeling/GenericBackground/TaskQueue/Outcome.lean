import GenericBackground.TaskQueue.DroppedWrites

/-!
# The outcome of an execution

Phase 2 of a task thread is one REPEATABLE READ transaction, with the snapshot it has taken before
`execute()`. Progress ticks and the stuck mark write the task's row in short transactions of their
own. A row that has been written since the snapshot cannot be locked any more, so `action_done`
fails with a serialization failure and the task is retried or failed; a row that happens to be
locked is left out, and the outcome is dropped.

`outcome_iff` says for every run when this happens: the task ends up done with its result exactly
when nobody writes its row before phase 2 has locked it, and the row is not locked when
`action_done` asks for it (`Sys.undisturbed`).
-/

namespace GenericTaskQueue

open RowStore Lts

variable {reg : Registry} {s s' : Sys} {ev : Ev} {r : RunnerId} {k : TaskId} {i : ℕ}

/-! ## Phases -/

/-- The phase of the thread while the transaction is open. -/
def Tx.busy : Tx → Option Phase
  | .actionStart _ _ _ => some .starting
  | .execute _ _ _ _ _ => some .executing
  | .failureHandler _ _ _ _ _ _ => some .handling
  | _ => none

/-- A thread has one transaction of its own open at a time, and its phase says which. -/
structure Busy (s : Sys) : Prop where
  phase : ∀ i x r k p, s.db.txns i = some x → x.act.owner = some (r, k) → x.act.busy = some p →
    ∃ th ∈ s.threads, th.runner = r ∧ th.task = k ∧ th.phase = p
  unique : ∀ i j x y o p q, s.db.txns i = some x → s.db.txns j = some y → x.act.owner = some o →
    y.act.owner = some o → x.act.busy = some p → y.act.busy = some q → i = j

theorem Start.busy (h : Start s) : Busy s where
  phase _ _ _ _ _ hx := absurd hx h.closed
  unique _ _ _ _ _ _ _ hx := absurd hx h.closed

theorem busy_idle {a : Tx} {p : Phase} (h : a.busy = some p) : p.idle = false := by
  cases a <;> first | (obtain rfl := Option.some.inj h; rfl) | cases h

/-- A thread begins a transaction of its own only between two others. -/
theorem ready_idle {a : Tx} {p : Phase} {th : Thread} (h : th.ready a = true)
    (hb : a.busy = some p) : th.phase.idle = true := by
  cases a with
  | actionStart => rw [of_decide_eq_true h]; rfl
  | execute => rw [of_decide_eq_true h]; rfl
  | failureHandler => rw [of_decide_eq_true h]; rfl
  | _ => cases hb

/-- How a step changes the phase of a thread. -/
theorem Inv.phase_after (hi : Inv reg s) (h : s.step reg ev = some s') {th : Thread}
    (hm : th ∈ s.threads) :
    (th.after s ev).phase = th.phase ∨
      (∃ a, ev = .db (.begin a) ∧ a.busy = some (th.after s ev).phase ∧ th.ready a = true) ∨
      (∃ i x p, (ev = .db (.commit i) ∨ ev = .db (.abort i)) ∧ s.db.txns i = some x ∧
        x.act.owner = some (th.runner, th.task) ∧ x.act.busy = some p) ∨
      (th.phase.idle = true ∧ (th.after s ev).phase = .ended) := by
  have hch := Thread.after_change s ev th
  generalize th.after s ev = th' at hch
  cases hch with
  | same => exact .inl rfl
  | @begin a ho =>
    obtain ⟨th₂, hm₂, hr₂, -, hready⟩ := allows_owner (Sys.step_of_db h).1 ho
    obtain rfl := hi.same_thread hm₂ hm hr₂
    cases a with
    | actionStart => exact .inr (.inl ⟨_, rfl, rfl, hready⟩)
    | execute => exact .inr (.inl ⟨_, rfl, rfl, hready⟩)
    | failureHandler => exact .inr (.inl ⟨_, rfl, rfl, hready⟩)
    | _ => exact .inl rfl
  | @skip _ x => cases hact : x.act <;> exact .inl rfl
  | @commit i x hx ho =>
    cases hb : x.act.busy with
    | some p => exact .inr (.inr (.inl ⟨i, x, p, .inl rfl, hx, ho, hb⟩))
    | none => cases hact : x.act <;> rw [hact] at hb <;> first | exact .inl rfl | cases hb
  | @abort i x hx ho =>
    cases hb : x.act.busy with
    | some p => exact .inr (.inr (.inl ⟨i, x, p, .inr rfl, hx, ho, hb⟩))
    | none => cases hact : x.act <;> rw [hact] at hb <;> first | exact .inl rfl | cases hb
  | kill hp => exact .inr (.inr (.inr ⟨hp, rfl⟩))
  | finalize => unfold Thread.finalize; split_ifs <;> exact .inl rfl

theorem Busy.step (hi : Inv reg s) (hb : Busy s) (h : s.step reg ev = some s') : Busy s' where
  phase i x r k p hx ho hp := by
    rcases Sys.step_txn h hx with ⟨y, hy, hya, -⟩ | ⟨hev, -, -, hallow, -⟩
    · rw [hya] at ho hp
      obtain ⟨th, hm, rfl, rfl, hph⟩ := hb.phase i y r k p hy ho hp
      obtain ⟨h1, h2, -⟩ := th.after_same s ev
      refine ⟨_, Sys.step_keeps_thread h hm, h1, h2, ?_⟩
      have hidle : th.phase.idle = false := hph ▸ busy_idle hp
      rcases hi.phase_after h hm with
        heq | ⟨a, -, hba, hready⟩ | ⟨j, z, q, he, hz, hoz, hbz⟩ | ⟨hid, -⟩
      · rw [heq, hph]
      · rw [ready_idle hready hba] at hidle; cases hidle
      · -- the transaction that ends is the one that is open
        obtain rfl := hb.unique i j y z _ p q hy hz ho hoz hp hbz
        rw [Sys.closed_txn h he] at hx
        cases hx
      · rw [hid] at hidle; cases hidle
    · obtain ⟨th, hm, rfl, rfl, hready⟩ := allows_owner hallow ho
      obtain ⟨h1, h2, -⟩ := th.after_same s ev
      refine ⟨_, Sys.step_keeps_thread h hm, h1, h2, ?_⟩
      rw [hev]
      show (if th.owns x.act then th.begun x.act else th).phase = p
      rw [if_pos (show th.owns x.act = true from decide_eq_true ho)]
      generalize x.act = a at hp
      cases a <;> first | exact Option.some.inj hp | cases hp
  unique i j x y o p q hx hy hox hoy hpx hpy := by
    -- a thread with an open transaction does not begin another
    have hnew : ∀ {i x j z p q}, s'.db.txns i = some x → x.act.owner = some o →
        x.act.busy = some p → s.allows (.begin x.act) = true → s.db.txns j = some z →
        z.act.owner = some o → z.act.busy = some q → False := by
      intro i x j z p q hx hox hpx hallow hz hoz hpz
      obtain ⟨th, hm, hr, hk, hready⟩ := allows_owner hallow hox
      obtain ⟨th₂, hm₂, hr₂, -, hph⟩ := hb.phase j z _ _ q hz hoz hpz
      obtain rfl := hi.same_thread hm₂ hm (hr₂.trans hr.symm)
      have := ready_idle hready hpx
      rw [hph, busy_idle hpz] at this
      cases this
    rcases Sys.step_txn h hx with ⟨x₀, hx₀, hxa, -⟩ | ⟨-, -, -, hax, hix⟩ <;>
      rcases Sys.step_txn h hy with ⟨y₀, hy₀, hya, -⟩ | ⟨-, -, -, hay, hjy⟩
    · rw [hxa] at hox hpx
      rw [hya] at hoy hpy
      exact hb.unique i j x₀ y₀ o p q hx₀ hy₀ hox hoy hpx hpy
    · exact (hnew hy hoy hpy hay hx₀ (hxa ▸ hox) (hxa ▸ hpx)).elim
    · exact (hnew hx hox hpx hax hy₀ (hya ▸ hoy) (hya ▸ hpy)).elim
    · rw [hix, hjy]

/-! ## The run of one execution -/

/-- While `execute()` runs in transaction `i`, and until its thread has ended: nobody else lands the
task or takes it from `r`; and the transaction fails only when it asks for the task's row and the
row has been written since its snapshot. -/
def Sys.quiet (reg : Registry) (i : ℕ) (r : RunnerId) (k : TaskId) (s : Sys) (ev : Ev) : Bool :=
  (s.threads.all fun th => th.runner = r → th.phase ≠ .ended) && match ev with
    | .db (.commit j) => (s.db.txns j).all fun x =>
        (x.act.executes = true ∧ x.act.owner = some (r, k)) ∨
          (x.written (prog reg) k).all (fun o => Held r o) = true
    | .db (.abort j) => j = i → (s.db.txns i).all (fun x => (x.asks (prog reg)).any fun mk =>
        mk.2 = k ∧ s.db.cur.ver k ≠ x.snap.ver k) = true
    | _ => true

/-- Nobody writes row `k` before transaction `i` has locked it, and `i` does not find it locked. -/
def Sys.undisturbed (reg : Registry) (i : ℕ) (k : TaskId) (s : Sys) (ev : Ev) : Bool :=
  match ev with
  | .db (.skip j) => j ≠ i
  | .db (.commit j) => j = i ∨ (s.db.txns i).all (fun y => k ∈ y.locked) = true ∨
      (s.db.txns j).all (fun x => (x.written (prog reg) k).isNone) = true
  | _ => true

def Sys.ended (r : RunnerId) (s : Sys) : Prop := ∃ th ∈ s.threads, th.runner = r ∧ th.phase = .ended

/-- The task `t` is done with the result of `execute()`, without a retry and without a failure. -/
def DoneAs (result : Option Json) (t : Task) (o : Option Task) : Prop :=
  ∃ u, o = some u ∧ u.state = .done ∧ u.taskResult = result ∧ u.retryCount = t.retryCount ∧
    u.taskError = t.taskError

def NotDone (o : Option Task) : Prop := ∀ t, o = some t → t.state ≠ .done

theorem Held.notDone {o : Option Task} (h : Held r o) : NotDone o := by
  obtain ⟨t, rfl, -, hf⟩ := h
  intro u hu hd
  obtain rfl := Option.some.inj hu
  rw [hd] at hf
  exact absurd hf (by decide)

theorem NotDone.not_doneAs {result : Option Json} {t : Task} {o : Option Task} (h : NotDone o) :
    ¬ DoneAs result t o := fun ⟨u, hu, hd, _⟩ => h u hu hd

theorem run_notDone {a : RowAct} {o o' : Option Task}
    (ha : (∃ u, a = .user u) ∨ ∃ r now exc tb rd, a = .failure r now exc tb rd)
    (h : a.run reg o = .ok o') (ho : NotDone o) : NotDone o' := by
  intro t' ht'
  subst ht'
  rcases o with _ | t
  · rcases ha with ⟨u, rfl⟩ | ⟨r, now, exc, tb, rd, rfl⟩
    · cases u with
      | create v =>
        obtain rfl := Option.some.inj (Except.ok.inj h)
        exact TaskState.noConfusion
      | _ => cases h
    · cases h
  · rcases ha with ⟨u, rfl⟩ | ⟨r, now, exc, tb, rd, rfl⟩
    · cases UserAct.leaves h with
      | edited he => rw [he.state]; exact ho t rfl
      | cancelled _ hs => rw [hs]; exact TaskState.noConfusion
      | retried _ hs => rw [hs]; exact TaskState.noConfusion
    · obtain ⟨t'', h₁, ht⟩ := map_some_ok h
      obtain rfl := Option.some.inj ht
      rcases handleFailure_cases h₁ with ⟨-, _, rfl⟩ | ⟨-, h₁⟩
      · exact TaskState.noConfusion
      · obtain ⟨-, rfl⟩ := checked_ok h₁
        exact TaskState.noConfusion

theorem runActs_notDone {acts : List RowAct} {p q : Bool × Option Task}
    (ha : ∀ a ∈ acts, (∃ u, a = .user u) ∨ ∃ r now exc tb rd, a = .failure r now exc tb rd)
    (hp : NotDone p.2) (h : runActs reg acts p = .ok q) : NotDone q.2 :=
  runActs_rel (R := fun o o' => NotDone o → NotDone o') (fun _ h => h) (fun h₁ h₂ h => h₂ (h₁ h))
    (fun a hm _ _ _ hr => run_notDone (ha a hm) hr) h hp

theorem handler_acts {x : Txn Tx TaskId Task} {now : ℕ} {body : List (TaskId × UserAct)} {exc : Exc}
    {tb : String} {k' : TaskId} (hact : x.act = .failureHandler r k now body exc tb) :
    ∀ a ∈ x.act.acts reg x.snap x.locked k',
      (∃ u, a = .user u) ∨ ∃ r now exc tb rd, a = .failure r now exc tb rd := by
  intro a hm
  have hiss := stmts_issues (mem_acts.1 hm)
  rw [hact] at hiss
  cases hiss with
  | user _ u => exact .inl ⟨_, rfl⟩
  | failure => exact .inr ⟨_, _, _, _, _, rfl⟩

/-- What task code may do to its own task: write whitelisted fields, store phase data, enter a
phase, and look for it by its key. -/
def UserAct.mild : UserAct → Bool
  | .lookupUniqueKey _ => true
  | .write _ => true
  | .storePhaseData _ => true
  | .enterPhase _ _ => true
  | _ => false

theorem mild_edits {u : UserAct} {t : Task} {o : Option Task} (hu : u.mild = true)
    (h : u.onTask t = .ok o) : ∃ t', o = some t' ∧ Edited t t' := by
  cases u with
  | lookupUniqueKey key => exact ⟨t, (Except.ok.inj h).symm, .refl t⟩
  | write v => exact ⟨_, (Except.ok.inj h).symm, rfl, rfl, rfl, rfl, rfl, rfl⟩
  | storePhaseData vals => exact ⟨_, (Except.ok.inj h).symm, rfl, rfl, rfl, rfl, rfl, rfl⟩
  | enterPhase phase childIds => exact ⟨_, (Except.ok.inj h).symm, rfl, rfl, rfl, rfl, rfl, rfl⟩
  | _ => cases hu

theorem mild_acts {acts : List RowAct} {p q : Bool × Option Task} {t : Task}
    (ha : ∀ a ∈ acts, ∃ u, a = .user u ∧ u.mild = true) (hp : p.2 = some t)
    (h : runActs reg acts p = .ok q) : ∃ t', q.2 = some t' ∧ Edited t t' := by
  refine runActs_rel (R := fun o o' => ∀ t, o = some t → ∃ t', o' = some t' ∧ Edited t t')
    (fun o t ht => ⟨t, ht, .refl t⟩) ?_ ?_ h t hp
  · intro o₁ o₂ o₃ h₁ h₂ t₁ ht₁
    obtain ⟨t₂, ht₂, he₁⟩ := h₁ t₁ ht₁
    obtain ⟨t₃, ht₃, he₂⟩ := h₂ t₂ ht₂
    exact ⟨t₃, ht₃, he₁.trans he₂⟩
  · intro a hm o o' _ hr t ht
    obtain ⟨u, rfl, hu⟩ := ha a hm
    subst ht
    exact mild_edits hu hr

theorem done_exec {now : ℕ} {result : Option Json} {p q : Bool × Option Task} {t : Task}
    (hp : p.2 = some t) (hr : t.runnerId = some r) (hf : t.state ∈ finalStates)
    (h : (RowAct.done r now result).exec reg p = .ok q) : DoneAs result t q.2 := by
  have hsel : (RowAct.done r now result).selects p.2 = true := by
    rw [hp]
    exact finalizable_iff.2 ⟨hf, fun _ hq => hq ▸ hr, nofun⟩
  have hrun := RowAct.exec_selected hsel h
  rw [hp] at hrun
  obtain ⟨t', hd, ht'⟩ := map_some_ok hrun
  obtain ⟨-, rfl⟩ := checked_ok hd
  exact ⟨_, ht', rfl, rfl, rfl, rfl⟩

/-! ## Undisturbed and lost executions -/

/-- Transaction `i` executes the task, and its row is as in the snapshot. -/
def Watch (s : Sys) (i : ℕ) (act : Tx) (k : TaskId) (t : Task) : Prop :=
  ∃ y, s.db.txns i = some y ∧ y.act = act ∧ y.snap.row k = some t ∧
    s.db.cur.ver k = y.snap.ver k ∧ k ∉ y.skipped

/-- The task is in flight, and transaction `i` cannot lock its row any more, or has failed. -/
def Lost (s : Sys) (i : ℕ) (act : Tx) (r : RunnerId) (k : TaskId) : Prop :=
  Held r (s.db.cur.row k) ∧
    ((∃ y, s.db.txns i = some y ∧ y.act = act ∧ k ∉ y.locked ∧
        (s.db.cur.ver k ≠ y.snap.ver k ∨ k ∈ y.skipped)) ∨
      ∃ th ∈ s.threads, th.runner = r ∧ th.task = k ∧ (th.phase = .failing ∨ th.phase = .handling))

theorem executes_busy {a : Tx} (h : a.executes = true) : ∃ p, a.busy = some p := by
  cases a with
  | execute => exact ⟨_, rfl⟩
  | failureHandler => exact ⟨_, rfl⟩
  | _ => cases h

theorem quiet_row (hi : Inv reg s) (hq : s.quiet reg i r k ev = true)
    (h : s.step reg ev = some s') (hh : Held r (s.db.cur.row k))
    (hown : ∀ j x, ev = .db (.commit j) → s.db.txns j = some x → k ∈ x.locked →
      x.act.executes = true → x.act.owner = some (r, k) → False) : Held r (s'.db.cur.row k) := by
  rcases Sys.step_db h with ⟨e, rfl, -, hs⟩ | ⟨-, hdb⟩
  · rcases hs.row_change hi.wf k with hsame | ⟨j, x, o, rfl, hx, hk, -, hwr, ho⟩
    · rw [hsame]; exact hh
    · simp only [Sys.quiet, hx, Option.all_some, Bool.and_eq_true, decide_eq_true_eq] at hq
      rcases hq.2 with ⟨hex, hown'⟩ | hw
      · exact (hown j x rfl hx hk hex hown').elim
      · rw [Txn.written_of_mem hk, hwr, Option.all_some] at hw
        rw [ho]
        exact of_decide_eq_true hw
  · rw [hdb]; exact hh

theorem ended_of_commit (h : s.step reg (.db (.commit i)) = some s') {x : Txn Tx TaskId Task}
    (hx : s.db.txns i = some x) (hex : x.act.executes = true) {th : Thread}
    (hm : th ∈ s.threads) (ho : x.act.owner = some (th.runner, th.task)) : s'.ended th.runner := by
  refine ⟨_, Sys.step_keeps_thread h hm, (th.after_same s _).1, ?_⟩
  rw [Thread.after_commit hx ho]
  generalize x.act = a at hex
  cases a with
  | execute => rfl
  | failureHandler => rfl
  | _ => cases hex

theorem failing_after (hi : Inv reg s) (hb : Busy s) (h : s.step reg ev = some s') {th : Thread}
    (hm : th ∈ s.threads) (hph : th.phase = .failing ∨ th.phase = .handling) :
    ((th.after s ev).phase = .failing ∨ (th.after s ev).phase = .handling) ∨
      (th.after s ev).phase = .ended := by
  rcases hi.phase_after h hm with heq | ⟨a, -, hba, hready⟩ | ⟨j, x, p, he, hx, ho, hbx⟩ | ⟨-, hend⟩
  · rw [heq]; exact .inl hph
  · cases a with
    | actionStart =>
      rw [of_decide_eq_true hready] at hph
      rcases hph with hph | hph <;> cases hph
    | execute =>
      rw [of_decide_eq_true hready] at hph
      rcases hph with hph | hph <;> cases hph
    | failureHandler => exact .inl (.inr (Option.some.inj hba).symm)
    | _ => cases hba
  · -- the transaction that ends is the failure handler
    obtain ⟨th₂, hm₂, hr₂, -, hph₂⟩ := hb.phase j x _ _ p hx ho hbx
    obtain rfl := hi.same_thread hm₂ hm hr₂
    have hact : ∃ r k now body exc tb, x.act = .failureHandler r k now body exc tb := by
      generalize x.act = a at hbx
      cases a with
      | actionStart =>
        rw [hph₂, ← Option.some.inj hbx] at hph
        rcases hph with hph | hph <;> cases hph
      | execute =>
        rw [hph₂, ← Option.some.inj hbx] at hph
        rcases hph with hph | hph <;> cases hph
      | failureHandler => exact ⟨_, _, _, _, _, _, rfl⟩
      | _ => cases hbx
    obtain ⟨_, _, _, _, _, _, hact⟩ := hact
    right
    rcases he with rfl | rfl
    · rw [Thread.after_commit hx ho, hact]; rfl
    · rw [Thread.after_abort hx ho, hact]; rfl
  · exact .inr hend

theorem blocked_step (hi : Inv reg s) (h : s.step reg ev = some s') {y y' : Txn Tx TaskId Task}
    (hy : s.db.txns i = some y) (hy' : s'.db.txns i = some y') (hnl : k ∉ y.locked)
    (hcase : s.db.cur.ver k ≠ y.snap.ver k ∨ k ∈ y.skipped) (hys : y'.snap = y.snap)
    (hsk : y.skipped ⊆ y'.skipped) :
    k ∉ y'.locked ∧ (s'.db.cur.ver k ≠ y'.snap.ver k ∨ k ∈ y'.skipped) := by
  have hver := Sys.ver_le h k
  have hold := (hi.wf.txn i y hy).older k
  refine ⟨fun hlk => ?_, ?_⟩
  · obtain ⟨z, hz, -, -, hzk⟩ := Sys.step_locked h hy' hlk
    obtain rfl := Option.some.inj (hy.symm.trans hz)
    rcases hzk with hzk | ⟨-, m, hask⟩
    · exact hnl hzk
    · rcases hcase with hne | hS
      · have := ((hi.step h).wf.txn i y' hy').unchanged k hlk
        rw [hys] at this
        omega
      · exact ((prog reg).next_fresh hask).2 hS
  · rw [hys]
    exact hcase.imp (fun hne => by omega) (fun hS => hsk hS)

/-- The execution, or the failure handler, that cannot lock the row stays so, or fails, or ends its
thread. -/
theorem Lost.step_open {y : Txn Tx TaskId Task} (hi : Inv reg s) (hb : Busy s)
    (hex : y.act.executes = true) (ho : y.act.owner = some (r, k)) (hh : Held r (s.db.cur.row k))
    (hy : s.db.txns i = some y) (hnl : k ∉ y.locked)
    (hcase : s.db.cur.ver k ≠ y.snap.ver k ∨ k ∈ y.skipped) (hq : s.quiet reg i r k ev = true)
    (h : s.step reg ev = some s') :
    Lost s' i y.act r k ∨ (s'.ended r ∧ NotDone (s'.db.cur.row k)) := by
  obtain ⟨p, hp⟩ := executes_busy hex
  obtain ⟨th, hm, rfl, rfl, hph⟩ := hb.phase i y r k p hy ho hp
  have hrow : Held th.runner (s'.db.cur.row th.task) :=
    quiet_row hi hq h hh fun j x _ hx hlk hex hox => by
      obtain ⟨q, hq⟩ := executes_busy hex
      obtain rfl := hb.unique i j y x _ p q hy hx ho hox hp hq
      obtain rfl := Option.some.inj (hy.symm.trans hx)
      exact hnl hlk
  by_cases hc : ev = .db (.commit i)
  · subst hc
    exact .inr ⟨ended_of_commit h hy hex hm ho, hrow.notDone⟩
  · by_cases ha : ev = .db (.abort i)
    · subst ha
      obtain ⟨h1, h2, -⟩ := th.after_same s (.db (.abort i))
      have hafter := Thread.after_abort hy ho
      cases hya : y.act with
      | execute =>
        exact .inl ⟨hrow, .inr ⟨_, Sys.step_keeps_thread h hm, h1, h2, by
          rw [hafter, hya]; exact .inl rfl⟩⟩
      | failureHandler =>
        exact .inr ⟨⟨_, Sys.step_keeps_thread h hm, h1, by rw [hafter, hya]; rfl⟩, hrow.notDone⟩
      | _ => rw [hya] at hex; cases hex
    · obtain ⟨y', hy', hya, hys, -, hsk, -⟩ := Sys.txn_stays hi.wf h hy hc ha
      obtain ⟨hnl', hcase'⟩ := blocked_step hi h hy hy' hnl hcase hys hsk
      exact .inl ⟨hrow, .inl ⟨y', hy', hya, hnl', hcase'⟩⟩

theorem handler_commit (hi : Inv reg s) {j : ℕ} {x : Txn Tx TaskId Task} {now : ℕ}
    {body : List (TaskId × UserAct)} {exc : Exc} {tb : String}
    (h : s.step reg (.db (.commit j)) = some s') (hx : s.db.txns j = some x)
    (hxa : x.act = .failureHandler r k now body exc tb) (hh : Held r (s.db.cur.row k)) :
    NotDone (s'.db.cur.row k) := by
  obtain ⟨z, hz, -, hstep⟩ := Sys.step_commit h
  obtain rfl := Option.some.inj (hx.symm.trans hz)
  by_cases hlk : k ∈ x.locked
  · obtain ⟨b, hrun⟩ := commit_row hi.wf hstep hx hlk
    exact runActs_notDone (handler_acts hxa) hh.notDone hrun
  · rcases hstep.row_change hi.wf k with hsame | ⟨j', z, o, he, hz, hk, -⟩
    · rw [hsame]; exact hh.notDone
    · obtain rfl := Event.commit.inj he
      obtain rfl := Option.some.inj (hx.symm.trans hz)
      exact absurd hk hlk

theorem Lost.step_failed {act : Tx} {th : Thread} (hi : Inv reg s) (hb : Busy s)
    (hm : th ∈ s.threads) (hph : th.phase = .failing ∨ th.phase = .handling)
    (hh : Held th.runner (s.db.cur.row th.task))
    (hq : s.quiet reg i th.runner th.task ev = true) (h : s.step reg ev = some s') :
    Lost s' i act th.runner th.task ∨ (s'.ended th.runner ∧ NotDone (s'.db.cur.row th.task)) := by
  have hth := Sys.step_keeps_thread h hm
  obtain ⟨h1, h2, -⟩ := th.after_same s ev
  by_cases hown : ∃ j x, ev = .db (.commit j) ∧ s.db.txns j = some x ∧ x.act.executes = true ∧
      x.act.owner = some (th.runner, th.task)
  · obtain ⟨j, x, rfl, hx, hex, hox⟩ := hown
    refine .inr ⟨ended_of_commit h hx hex hm hox, ?_⟩
    obtain ⟨p, hp⟩ := executes_busy hex
    obtain ⟨th₂, hm₂, hr₂, -, hph₂⟩ := hb.phase j x _ _ p hx hox hp
    obtain rfl := hi.same_thread hm₂ hm hr₂
    cases hxa : x.act with
    | failureHandler r k now body exc tb =>
      rw [hxa] at hox
      obtain ⟨rfl, rfl⟩ := Prod.mk.inj (Option.some.inj hox)
      exact handler_commit hi h hx hxa hh
    | execute =>
      -- a thread that has failed executes nothing
      rw [hxa] at hp
      rw [hph₂, ← Option.some.inj hp] at hph
      rcases hph with hph | hph <;> cases hph
    | _ => rw [hxa] at hex; cases hex
  · have hrow : Held th.runner (s'.db.cur.row th.task) :=
      quiet_row hi hq h hh fun j x he hx _ hex hox => hown ⟨j, x, he, hx, hex, hox⟩
    rcases failing_after hi hb h hm hph with hph | hph
    · exact .inl ⟨hrow, .inr ⟨_, hth, h1, h2, hph⟩⟩
    · exact .inr ⟨⟨_, hth, h1, hph⟩, hrow.notDone⟩

theorem Lost.step {act : Tx} (hi : Inv reg s) (hb : Busy s) (hact : act.executes = true)
    (ho : act.owner = some (r, k)) (hl : Lost s i act r k) (hq : s.quiet reg i r k ev = true)
    (h : s.step reg ev = some s') :
    Lost s' i act r k ∨ (s'.ended r ∧ NotDone (s'.db.cur.row k)) := by
  obtain ⟨hh, ⟨y, hy, rfl, hnl, hcase⟩ | ⟨th, hm, rfl, rfl, hph⟩⟩ := hl
  · exact Lost.step_open hi hb hact ho hh hy hnl hcase hq h
  · exact Lost.step_failed hi hb hm hph hh hq h

theorem execute_acts {now : ℕ} {body : List (TaskId × UserAct)} {result : Option Json}
    {σ : Snapshot TaskId Task} {L : List TaskId} :
    (Tx.execute r k now body (.returns result)).acts reg σ L k =
      ((userStmts body).filter fun p => p.1 = k).map Prod.snd ++ [.done r now result] := by
  unfold Tx.acts Tx.stmts
  rw [List.filter_append, List.map_append]
  simp

theorem mild_body {body : List (TaskId × UserAct)} (hb : ∀ u, (k, u) ∈ body → u.mild = true) :
    ∀ a ∈ ((userStmts body).filter fun p => p.1 = k).map Prod.snd,
      ∃ u, a = .user u ∧ u.mild = true := by
  intro a ha
  obtain ⟨p, hp, rfl⟩ := List.mem_map.1 ha
  obtain ⟨hm, hk⟩ := List.mem_filter.1 hp
  obtain ⟨⟨k', u⟩, hu, rfl⟩ := List.mem_map.1 hm
  obtain rfl : k' = k := of_decide_eq_true hk
  have hmild := hb u hu
  cases u with
  | create v => cases hmild
  | _ => exact ⟨_, rfl, hmild⟩

/-- `execute()` and `action_done` go through if the row is as in the snapshot. -/
theorem Watch.commit {now : ℕ} {body : List (TaskId × UserAct)} {result : Option Json} {t : Task}
    (hi : Inv reg s) (hb : Busy s) (hr : t.runnerId = some r) (hf : t.state ∈ finalStates)
    (hmild : ∀ u, (k, u) ∈ body → u.mild = true)
    (hw : Watch s i (.execute r k now body (.returns result)) k t)
    (h : s.step reg (.db (.commit i)) = some s') :
    s'.ended r ∧ DoneAs result t (s'.db.cur.row k) := by
  obtain ⟨y, hy, hact, hsnap, hver, hns⟩ := hw
  have ho : y.act.owner = some (r, k) := by rw [hact]; rfl
  have hex : y.act.executes = true := by rw [hact]; rfl
  obtain ⟨p, hp⟩ := executes_busy hex
  obtain ⟨th, hm, rfl, rfl, -⟩ := hb.phase i y r k p hy ho hp
  refine ⟨ended_of_commit h hy hex hm ho, ?_⟩
  obtain ⟨z, hz, hn, hstep⟩ := Sys.step_commit h
  obtain rfl := Option.some.inj (hy.symm.trans hz)
  have hcur : s.db.cur.row th.task = some t := ((hi.wf.txn i y hy).same _ hver).trans hsnap
  have hlk : th.task ∈ y.locked := by
    have hstmt : (th.task, RowAct.done th.runner now result) ∈ y.act.stmts reg y.snap y.locked := by
      rw [hact]
      exact List.mem_append_right _ (List.mem_singleton.2 rfl)
    rcases next_none hn (by rw [hact]; rfl) hstmt with hL | hS | hsel
    · exact hL
    · exact absurd hS hns
    · rw [hsnap] at hsel
      rw [show (RowAct.done th.runner now result).selects (some t) = true from
        finalizable_iff.2 ⟨hf, fun _ hq => hq ▸ hr, nofun⟩] at hsel
      cases hsel
  obtain ⟨b, hrun⟩ := commit_row hi.wf hstep hy hlk
  rw [hact, execute_acts, hcur] at hrun
  obtain ⟨q, hq, hlast⟩ := runActs_append hrun
  obtain ⟨t', ht', hed⟩ := mild_acts (mild_body hmild) rfl hq
  obtain ⟨q', hq', hend⟩ := runActs_cons hlast
  obtain rfl := Except.ok.inj hend
  obtain ⟨u, hu, hd, hres, hc, he⟩ := done_exec ht' (hed.runnerId.trans hr) (hed.state ▸ hf) hq'
  exact ⟨u, hu, hd, hres, hc.trans hed.retryCount, he.trans hed.taskError⟩

theorem skipped_own {now : ℕ} {body : List (TaskId × UserAct)} {result : Option Json}
    {y y' : Txn Tx TaskId Task} (hy : s.db.txns i = some y)
    (hact : y.act = .execute r k now body (.returns result))
    (h : s.step reg (.db (.skip i)) = some s') (hy' : s'.db.txns i = some y') :
    k ∉ y'.locked ∧ k ∈ y'.skipped := by
  obtain ⟨z, k', hz, hask, -, hafter⟩ := (Sys.step_of_db h).2.skip_inv
  obtain rfl := Option.some.inj (hy.symm.trans hz)
  obtain rfl := Option.some.inj (hy'.symm.trans hafter)
  obtain ⟨r', w, hw⟩ := skipped_final (by rw [hact]; rfl) hask
  have hown := finalWrite_owner hw
  rw [hact] at hown
  obtain ⟨rfl, rfl⟩ := Prod.mk.inj (Option.some.inj hown)
  exact ⟨((prog reg).next_fresh hask).1, List.mem_cons_self⟩

theorem Watch.stays {act : Tx} {t : Task} (hi : Inv reg s) (hw : Watch s i act k t)
    (h : s.step reg ev = some s') (hc : ev ≠ .db (.commit i)) (ha : ev ≠ .db (.abort i))
    (hskip : ev ≠ .db (.skip i)) (hv : s'.db.cur.ver k = s.db.cur.ver k) : Watch s' i act k t := by
  obtain ⟨y, hy, rfl, hsnap, hver, hns⟩ := hw
  obtain ⟨y', hy', hya, hys, -⟩ := Sys.txn_stays hi.wf h hy hc ha
  refine ⟨y', hy', hya, hys ▸ hsnap, by rw [hv, hver, hys], fun hS => ?_⟩
  obtain ⟨z, hz, -, -, hzk⟩ := Sys.step_skipped h hy' hS
  obtain rfl := Option.some.inj (hy.symm.trans hz)
  rcases hzk with hzk | ⟨he, -⟩
  · exact hns hzk
  · exact hskip he

/-- Another transaction that commits disturbs the execution by writing its row before the execution
has locked it; from then on the row is newer than the snapshot. -/
theorem commit_other {j : ℕ} {y y' : Txn Tx TaskId Task} (hi : Inv reg s)
    (hy : s.db.txns i = some y) (hy' : s'.db.txns i = some y') (hys : y'.snap = y.snap)
    (hver : s.db.cur.ver k = y.snap.ver k) (hji : j ≠ i)
    (h : s.step reg (.db (.commit j)) = some s') :
    (s.undisturbed reg i k (.db (.commit j)) = true ∧ s'.db.cur.ver k = s.db.cur.ver k) ∨
      (s.undisturbed reg i k (.db (.commit j)) = false ∧ k ∉ y'.locked ∧
        s'.db.cur.ver k ≠ y'.snap.ver k) := by
  obtain ⟨x, hx, -, hstep⟩ := Sys.step_commit h
  obtain ⟨z, hz, -, -, hafter⟩ := hstep.commit_inv
  obtain rfl := Option.some.inj (hx.symm.trans hz)
  have unwritten (hw : x.written (prog reg) k = none) : s'.db.cur.ver k = s.db.cur.ver k := by
    rw [hafter]
    exact Txn.apply_ver_of_none hw
  by_cases hlk : k ∈ y.locked
  · have hxk : k ∉ x.locked := fun hk => hji (hi.wf.disjoint j i x y k hx hy hk hlk)
    exact .inl ⟨by simp [Sys.undisturbed, hy, hlk], unwritten (Txn.written_of_not_mem hxk)⟩
  · rcases hw : x.written (prog reg) k with _ | o
    · exact .inl ⟨by simp [Sys.undisturbed, hx, hw], unwritten hw⟩
    · refine .inr ⟨by simp [Sys.undisturbed, hy, hx, hlk, hw, hji], fun hk => ?_, ?_⟩
      · obtain ⟨z, hz, -, -, hzk | ⟨he, -⟩⟩ := Sys.step_locked h hy' hk
        · obtain rfl := Option.some.inj (hy.symm.trans hz)
          exact hlk hzk
        · cases he
      · rw [hafter, Txn.apply_ver_of_some hw, hys, hver]
        exact Nat.succ_ne_self _

/-- An undisturbed step leaves the execution as it is, or completes it; a disturbed one loses it. -/
theorem Watch.step {now : ℕ} {body : List (TaskId × UserAct)} {result : Option Json} {t : Task}
    (hi : Inv reg s) (hb : Busy s) (hr : t.runnerId = some r) (hf : t.state ∈ finalStates)
    (hmild : ∀ u, (k, u) ∈ body → u.mild = true)
    (hw : Watch s i (.execute r k now body (.returns result)) k t)
    (hq : s.quiet reg i r k ev = true) (h : s.step reg ev = some s') :
    (s.undisturbed reg i k ev = true ∧
        (Watch s' i (.execute r k now body (.returns result)) k t ∨
          (s'.ended r ∧ DoneAs result t (s'.db.cur.row k)))) ∨
      (s.undisturbed reg i k ev = false ∧
        Lost s' i (.execute r k now body (.returns result)) r k) := by
  by_cases hc : ev = .db (.commit i)
  · subst hc
    exact .inl ⟨decide_eq_true (.inl rfl), .inr (hw.commit hi hb hr hf hmild h)⟩
  obtain ⟨y, hy, hact, hsnap, hver, hns⟩ := id hw
  have ho : y.act.owner = some (r, k) := by rw [hact]; rfl
  have hex : y.act.executes = true := by rw [hact]; rfl
  have hcur : s.db.cur.row k = some t := ((hi.wf.txn i y hy).same _ hver).trans hsnap
  have hh : Held r (s.db.cur.row k) := ⟨t, hcur, hr, final_in_flight hf⟩
  have ha : ev ≠ .db (.abort i) := by
    -- it fails only on a row that has changed
    rintro rfl
    simp only [Sys.quiet, hy, Option.all_some, Bool.and_eq_true, decide_eq_true_eq,
      forall_const] at hq
    obtain ⟨mk, -, hmk⟩ := (Option.any_eq_true _ _).1 hq.2
    exact (of_decide_eq_true hmk).2 hver
  have hrow : Held r (s'.db.cur.row k) := quiet_row hi hq h hh fun j x he hx hlk hexx hox => by
    obtain ⟨p, hp⟩ := executes_busy hex
    obtain ⟨q, hq⟩ := executes_busy hexx
    obtain rfl := hb.unique i j y x _ p q hy hx ho hox hp hq
    exact hc he
  obtain ⟨y', hy', hya, hys, -⟩ := Sys.txn_stays hi.wf h hy hc ha
  have stays := hw.stays hi h hc ha
  have same : (∀ j, ev ≠ .db (.commit j)) → s'.db.cur.ver k = s.db.cur.ver k :=
    fun hne => by rw [Sys.cur_eq h hne]
  cases ev with
  | kill q => exact .inl ⟨rfl, .inl (stays nofun (same nofun))⟩
  | finalizeCompleted w => exact .inl ⟨rfl, .inl (stays nofun (same nofun))⟩
  | db e =>
    cases e with
    | begin a => exact .inl ⟨rfl, .inl (stays nofun (same nofun))⟩
    | lock j => exact .inl ⟨rfl, .inl (stays nofun (same nofun))⟩
    | abort j => exact .inl ⟨rfl, .inl (stays nofun (same nofun))⟩
    | skip j =>
      by_cases hji : j = i
      · subst hji
        obtain ⟨hnl, hS⟩ := skipped_own hy hact h hy'
        exact .inr ⟨by simp [Sys.undisturbed], hrow, .inl ⟨y', hy', hya.trans hact, hnl, .inr hS⟩⟩
      · exact .inl ⟨decide_eq_true hji,
          .inl (stays (fun he => hji (Event.skip.inj (Ev.db.inj he))) (same nofun))⟩
    | commit j =>
      have hji : j ≠ i := fun he => hc (he ▸ rfl)
      rcases commit_other hi hy hy' hys hver hji h with ⟨hu, hv⟩ | ⟨hu, hnl, hv⟩
      · exact .inl ⟨hu, .inl (stays nofun hv)⟩
      · exact .inr ⟨hu, hrow, .inl ⟨y', hy', hya.trans hact, hnl, .inl hv⟩⟩

/-! ## Runs -/

theorem quiet_ended {es : List Ev} {s₂ : Sys} (he : s.ended r)
    (hp : Path (Sys.step reg) (fun s ev => s.quiet reg i r k ev = true) s es s₂) :
    es = [] ∧ s₂ = s := by
  cases hp with
  | nil => exact ⟨rfl, rfl⟩
  | cons hok =>
    obtain ⟨th, hm, hr, hph⟩ := he
    simp only [Sys.quiet, Bool.and_eq_true, List.all_eq_true, decide_eq_true_eq] at hok
    exact absurd hph (hok.1 th hm hr)

theorem lost_run {act : Tx} {es : List Ev} {s₂ : Sys} (hi : Inv reg s) (hb : Busy s)
    (hact : act.executes = true) (ho : act.owner = some (r, k)) (hl : Lost s i act r k)
    (hp : Path (Sys.step reg) (fun s ev => s.quiet reg i r k ev = true) s es s₂) :
    NotDone (s₂.db.cur.row k) := by
  induction hp with
  | nil s => exact hl.1.notDone
  | cons hok hs hp ih =>
    rcases hl.step hi hb hact ho hok hs with hl' | ⟨hend, hnd⟩
    · exact ih (hi.step hs) (hb.step hi hs) hl'
    · obtain ⟨-, rfl⟩ := quiet_ended hend hp
      exact hnd

theorem Watch.not_ended {act : Tx} {t : Task} (hi : Inv reg s) (hb : Busy s)
    (hex : act.executes = true) (ho : act.owner = some (r, k)) (hw : Watch s i act k t) :
    ¬ s.ended r := by
  obtain ⟨y, hy, rfl, -⟩ := hw
  obtain ⟨p, hp⟩ := executes_busy hex
  obtain ⟨th, hm, rfl, -, hph⟩ := hb.phase i y r k p hy ho hp
  rintro ⟨th₂, hm₂, hr₂, hend⟩
  obtain rfl := hi.same_thread hm₂ hm hr₂
  rw [← hph, hend] at hp
  cases hact : y.act <;> rw [hact] at hp <;> cases hp

/-- From the snapshot on, the task is done at the end if and only if every step is undisturbed. -/
theorem watch_run {now : ℕ} {body : List (TaskId × UserAct)} {result : Option Json} {t : Task}
    {es : List Ev} {s₂ : Sys} (hi : Inv reg s) (hb : Busy s) (hr : t.runnerId = some r)
    (hf : t.state ∈ finalStates) (hmild : ∀ u, (k, u) ∈ body → u.mild = true)
    (hw : Watch s i (.execute r k now body (.returns result)) k t)
    (hp : Path (Sys.step reg) (fun s ev => s.quiet reg i r k ev = true) s es s₂)
    (hend : s₂.ended r) :
    DoneAs result t (s₂.db.cur.row k) ↔
      Path (Sys.step reg) (fun s ev => s.undisturbed reg i k ev = true) s es s₂ := by
  induction hp with
  | nil s => exact absurd hend (hw.not_ended hi hb rfl rfl)
  | cons hok hs hp ih =>
    rw [Path.cons_iff hs]
    rcases hw.step hi hb hr hf hmild hok hs with ⟨hu, hw' | ⟨hend', hdone⟩⟩ | ⟨hu, hl⟩
    · rw [ih (hi.step hs) (hb.step hi hs) hw' hend]
      exact ⟨fun h => ⟨hu, h⟩, And.right⟩
    · obtain ⟨rfl, rfl⟩ := quiet_ended hend' hp
      exact ⟨fun _ => ⟨hu, .nil _⟩, fun _ => hdone⟩
    · have hnd := lost_run (hi.step hs) (hb.step hi hs) rfl rfl hl hp
      refine ⟨fun hd => (hnd.not_doneAs hd).elim, fun h => ?_⟩
      rw [hu] at h
      cases h.1

/-- **Outcome.** Phase 2 begins with the task in its runner's hands, `execute()` returns a result,
and nobody else lands the task or takes it while the thread runs. Then the task is done with that
result, at the same attempt, if and only if no step of the run disturbs the row. -/
theorem outcome_iff {s₀ s₁ s₂ : Sys} {es₀ es : List Ev} {t : Task} {now : ℕ}
    {body : List (TaskId × UserAct)} {result : Option Json} (h0 : Start s₀)
    (hp₀ : Path (Sys.step reg) anyStep s₀ es₀ s₁) (ht : s₁.db.cur.row k = some t)
    (hr : t.runnerId = some r) (hf : t.state ∈ finalStates)
    (hmild : ∀ u, (k, u) ∈ body → u.mild = true)
    (hp : Path (Sys.step reg) (fun s ev => s.quiet reg s₁.db.nextId r k ev = true) s₁
      (.db (.begin (.execute r k now body (.returns result))) :: es) s₂) (hend : s₂.ended r) :
    DoneAs result t (s₂.db.cur.row k) ↔
      Path (Sys.step reg) (fun s ev => s.undisturbed reg s₁.db.nextId k ev = true) s₁
        (.db (.begin (.execute r k now body (.returns result))) :: es) s₂ := by
  have hi := h0.inv.path hp₀
  have hb : Busy s₁ := hp₀.inv_of (fun _ _ _ hi _ h => hi.step h)
    (fun _ _ _ hi hb _ h => hb.step hi h) h0.inv h0.busy
  cases hp with
  | @cons _ s _ _ _ hok hs hp =>
    have hw : Watch s s₁.db.nextId (.execute r k now body (.returns result)) k t := by
      obtain ⟨hx, hcur⟩ := (Sys.step_of_db hs).2.begin_inv
      exact ⟨_, hx, rfl, ht, by rw [hcur], List.not_mem_nil⟩
    rw [Path.cons_iff hs, watch_run (hi.step hs) (hb.step hi hs) hr hf hmild hw hp hend]
    exact ⟨fun h => ⟨rfl, h⟩, And.right⟩

def startedStuck : List Ev := [
  .db (.begin (.claimTask (exportClaim 1) id fun _ => 7)), .db (.lock 0), .db (.commit 0),
  .db (.begin (.actionStart 7 1 101)), .db (.lock 1), .db (.commit 1),
  .db (.begin (.timeoutTask 7 1 true)), .db (.lock 2), .db (.commit 2)]

/-- `execute()` stores phase data and returns 42. -/
def storing : Tx :=
  .execute 7 1 200 [(1, .storePhaseData [("page", .int 2)])] (.returns (some (.int 42)))

/-- Once it has stored phase data, a tick finds the row locked. -/
def storedThenTicked : List Ev := [.db (.begin storing), .db (.lock 3),
  .db (.begin (.updateProgress [(1, 50)])), .db (.skip 4), .db (.commit 4), .db (.commit 3)]

theorem storedThenTicked_done : ∃ s₁ s₂ t,
    Path (Sys.step []) anyStep (Sys.init oneTask) startedStuck s₁ ∧ s₁.db.cur.row 1 = some t ∧
    Path (Sys.step []) (fun s ev => s.quiet [] s₁.db.nextId 7 1 ev = true) s₁ storedThenTicked s₂ ∧
    DoneAs (some (.int 42)) t (s₂.db.cur.row 1) := by
  have hp₀ : Path (Sys.step []) anyStep (Sys.init oneTask) startedStuck (reached _ _ _ _) :=
    path_reached (by decide +kernel)
  have hp : Path (Sys.step []) (fun s ev => s.quiet [] 3 7 1 ev = true)
      (reached (Sys.step []) anyStep (Sys.init oneTask) startedStuck) storedThenTicked
      (reached _ _ _ _) := path_reached (by decide +kernel)
  have hu : Path (Sys.step []) (fun s ev => s.undisturbed [] 3 1 ev = true)
      (reached (Sys.step []) anyStep (Sys.init oneTask) startedStuck) storedThenTicked
      (reached _ _ _ _) := path_reached (by decide +kernel)
  exact ⟨_, _, _, hp₀, rfl, hp, (outcome_iff (Start.init (by decide)) hp₀ rfl rfl (by decide)
    (by simp [UserAct.mild]) hp ⟨_, List.mem_cons_self, rfl, rfl⟩).2 hu⟩

/-- A tick while `execute()` runs: `action_done` fails, and the failure is handled. -/
def tickedMeanwhile : List Ev := [
  .db (.begin (.execute 7 1 200 [] (.returns (some (.int 42))))),
  .db (.begin (.updateProgress [(1, 50)])), .db (.lock 4), .db (.commit 4), .db (.abort 3),
  .db (.begin (.failureHandler 7 1 210 [] .transientError "SerializationFailure")),
  .db (.lock 5), .db (.commit 5)]

/-- The task is retried, and its result is gone. -/
theorem tickedMeanwhile_retried : ∃ s₁ s₂,
    Path (Sys.step []) anyStep (Sys.init oneTask) startedStuck s₁ ∧
    Path (Sys.step []) (fun s ev => s.quiet [] s₁.db.nextId 7 1 ev = true) s₁ tickedMeanwhile s₂ ∧
    s₂.ended 7 ∧ (s₂.db.cur.row 1).map (fun t => (t.state, t.retryCount, t.taskResult)) =
      some (.pending, 1, none) := by
  have hp₀ : Path (Sys.step []) anyStep (Sys.init oneTask) startedStuck (reached _ _ _ _) :=
    path_reached (by decide +kernel)
  have hp : Path (Sys.step []) (fun s ev => s.quiet [] 3 7 1 ev = true)
      (reached (Sys.step []) anyStep (Sys.init oneTask) startedStuck) tickedMeanwhile
      (reached _ _ _ _) := path_reached (by decide +kernel)
  exact ⟨_, _, hp₀, hp, ⟨_, List.mem_cons_self, rfl, rfl⟩, rfl⟩

end GenericTaskQueue
