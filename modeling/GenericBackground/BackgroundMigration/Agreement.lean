import GenericBackground.BackgroundMigration.Reachable

/-!
# The record and its task

A migration record agrees with the task that it names when it is pending while the task is active,
done when the task is done, and failed when the task has failed. The two are kept in step only by
hooks, which some moves of a task call and others do not. `record_agrees` says which steps keep them
in step (`System.inStep`): no `action_cancel` or `action_retry` on that task, no completion of a
waiting task without children, and no hook for another task or for a thread that has lost its own.
-/

namespace GenericBackgroundMigration

open GenericTaskQueue Traced Lts

/-! ## Agreement -/

/-- The state of the record, by the state of its task. -/
def Fits : MigrationState → TaskState → Prop
  | .pending, x => x ∈ activeStates
  | .done, x => x = .done
  | .failed, x => x = .failed

/-- The record agrees with the task that it names. -/
def System.Agrees (s : System) : Prop :=
  ∀ r id, s.db.others = some r → r.taskId = some id →
    ∃ t, s.db.tasks.get id = some t ∧ Fits r.state t.state

/-- No thread is executing the migration. -/
def System.Idle (s : System) : Prop :=
  ∀ r th, s.threads r = some th → th.phase.executes = false

instance (k : MigrationKey) (spec : TaskSpec) : Decidable (RunsIt k spec) := by
  unfold RunsIt; infer_instance

namespace System

variable (k : MigrationKey)

/-- The record names the task `id`. -/
def points (s : System) (id : TaskId) : Bool := s.db.others.bind Migration.taskId = some id

/-- The hook is called for the task that the record names, and returns. -/
def marks (s : System) (id : TaskId) (ended : HookEnd) : Bool := s.points id && returns ended

def owned (runner : RunnerId) (t : Task) : Bool := finalizable finalStates (some runner) none t

/-- Steps that keep the record and its task in step. -/
def inStep (s : System) (ev : Ev) : Bool :=
  match ev.act with
  | .schedule _ => typeCode ∈ ev.env.activeTypes
  | .cancel _ id => (s.own k id).all fun t =>
      .cancelled ∉ allowedTransitions t.state || !s.points id
  | .retry id _ => (s.own k id).all fun t => t.state ≠ .failed || !s.points id
  | .finish runner m ended =>
    m.spawns.all (fun spec => ¬ RunsIt k spec) && match s.threads runner with
      | some ⟨_, .executing _ read _⟩ => m.waits || read.state = .waiting ||
          (owned runner read && s.marks read.id ended)
      | _ => true
  | .handleFailure runner _ ended => match s.threads runner with
    | some ⟨id, .failing exc⟩ => (s.own k id).all fun t =>
        retriesFailure exc t || (owned runner t && s.marks id ended)
    | _ => true
  | .recover id _ ended => (s.own k id).all fun t => !LostForGood t || s.marks id ended
  | .resolvedStuck runner ended => match s.threads runner with
    | some ⟨id, _⟩ => (s.own k id).all fun t => !LostForGood t || s.marks id ended
    | none => true
  | .check id d f => (s.own k id).all fun t => t.state ≠ .waiting ||
      (s.db.tasks.children id ≠ [] && ((s.db.tasks.children id).any (·.state ∈ activeStates) ||
        (s.marks id d && s.marks id f)))
  | _ => true

end System

variable {k : MigrationKey} {s s' : System} {ev : Ev} {V : Tasks} {o : Option Migration}

/-! ## Steps that keep them in step -/

theorem System.marks_spec {id : TaskId} {ended : HookEnd} (h : s.marks id ended = true) :
    s.points id = true ∧ returns ended = true := by
  simpa [System.marks] using h

/-- An active task is fit for a pending record only. -/
theorem Fits.pending {st : MigrationState} {x : TaskState} (h : Fits st x)
    (ha : x ∈ activeStates) : st = .pending := by
  cases st with
  | pending => rfl
  | done => obtain rfl : x = .done := h; exact absurd ha (by decide)
  | failed => obtain rfl : x = .failed := h; exact absurd ha (by decide)

theorem fits_final (st : MigrationState) : Fits st st.final := by
  cases st with
  | pending => show TaskState.pending ∈ activeStates; decide
  | done => rfl
  | failed => rfl

theorem not_any_active {cs : List Task} (h : ∀ c ∈ cs, c.state ∉ activeStates) :
    (cs.any fun c => c.state ∈ activeStates) = false := by
  simpa using h

/-- The hooks of an orderly step are called for the task that the record names, and return. -/
theorem Settles.marks {t : Task} {state : MigrationState} {ended : HookEnd}
    (h : Settles k s ev t state ended) (ht : s.own k t.id = some t)
    (hok : s.inStep k ev = true) : s.marks t.id ended = true := by
  unfold System.inStep at hok
  cases h with
  | finish ha hf hm hw ho =>
    obtain ⟨id, record, hth⟩ := (finished_spec hf).thread
    simp only [ha, hth, hm, hw, Bool.and_eq_true, Bool.or_eq_true, decide_eq_true_eq] at hok
    simpa [System.owned, ho] using hok.2
  | handle ha hth hr ho =>
    simp only [ha, hth, ht, Option.all_some, hr, Bool.false_or, Bool.and_eq_true] at hok
    exact hok.2
  | recover ha hr =>
    simpa only [ha, ht, Option.all_some, hr, Bool.not_true, Bool.false_or] using hok
  | resolvedStuck ha hth hr =>
    simpa only [ha, hth, ht, Option.all_some, hr, Bool.not_true, Bool.false_or] using hok
  | childrenDone ha hw hc hq he =>
    simp only [ha, ht, Option.all_some, hw, not_any_active hq] at hok
    simp only [ne_eq, not_true_eq_false, decide_false, Bool.false_or, Bool.and_eq_true] at hok
    exact hok.2.1
  | childrenFailed ha hw hc hq =>
    simp only [ha, ht, Option.all_some, hw, not_any_active hq] at hok
    simp only [ne_eq, not_true_eq_false, decide_false, Bool.false_or, Bool.and_eq_true] at hok
    exact hok.2.2

theorem Disowned.not_inStep {state : MigrationState} {ended : HookEnd}
    (h : Disowned k s ev state ended) : s.inStep k ev = false := by
  unfold System.inStep
  cases h with
  | finish ha hf hm hw ho =>
    obtain ⟨id, record, hth⟩ := (finished_spec hf).thread
    simp only [ha, hth, hm, hw, System.owned, ho]
    simp
  | handle ha hth ht hr ho =>
    simp only [ha, hth, ht, Option.all_some, hr, System.owned, ho]
    rfl

/-- The record agrees with its task, among the tasks of the migration. -/
def AgreesOn (V : Tasks) (o : Option Migration) : Prop :=
  ∀ r id, o = some r → r.taskId = some id → ∃ t, V id = some t ∧ Fits r.state t.state

theorem points_of {r : Migration} {id : TaskId} (hr : s.db.others = some r)
    (hid : r.taskId = some id) : s.points id = true := by
  unfold System.points
  rw [hr, Option.bind_some, hid]
  simp

theorem Moves.fits {t t' : Task} {st : MigrationState} (h : Moves k s ev t t')
    (hok : s.inStep k ev = true) (ht : s.own k t.id = some t) (hq : Enqueued k t)
    (hp : s.points t.id = true) (hf : Fits st t.state) : Fits st t'.state := by
  unfold System.inStep at hok
  cases h with
  | kept h => rwa [h]
  | active ha ha' =>
    obtain rfl := hf.pending ha
    exact ha'
  | retried ha hst =>
    simp only [ha, ht, Option.all_some, hst, hp] at hok
    cases hok
  | autoRetried ha hpol =>
    rw [hq.retryPolicy] at hpol
    cases hpol
  | childless ha hw hc =>
    simp only [ha, ht, Option.all_some, hw, hc] at hok
    simp at hok

/-- **One step.** An orderly step keeps the record and its task in agreement. -/
theorem Change.agrees (h : Change k s ev (s.own k) V o) (hok : s.inStep k ev = true)
    (hq : ∀ j t, s.own k j = some t → Enqueued k t) (hA : AgreesOn (s.own k) s.db.others) :
    AgreesOn V o := by
  cases h with
  | same => exact hA
  | @enqueued r t hr hid hfree ht hp =>
    intro r' id hr' hid'
    obtain rfl := Option.some.inj hr'
    obtain rfl := Option.some.inj hid'
    refine ⟨t, Function.update_self .., ?_⟩
    show Fits r.state t.state
    rw [hr.state, hp]
    exact fits_final .pending
  | @reused r t hr ht ha =>
    intro r' id hr' hid'
    obtain rfl := Option.some.inj hr'
    obtain rfl := Option.some.inj hid'
    refine ⟨t, ht, ?_⟩
    show Fits r.state t.state
    rw [hr.state]
    exact ha
  | stranded hr ha hty =>
    unfold System.inStep at hok
    simp only [ha, hty, decide_false] at hok
    cases hok
  | cancelled ha hc hV =>
    intro r id hr hid
    obtain ⟨t, ht, hf⟩ := hA r id hr hid
    obtain rfl := MigrationKey.task_id ht
    rcases hV t.id with h | ⟨u, u', hu, -, -, -, hpar⟩
    · exact ⟨t, h.trans ht, hf⟩
    · -- a task of the migration has no parent, so it is the one that is cancelled
      obtain rfl := Option.some.inj (ht.symm.trans hu)
      obtain rfl := not_not.1 fun hne => hpar hne (hq _ _ ht).parentId
      unfold System.inStep at hok
      simp only [ha, ht, Option.all_some, points_of hr hid, hc t ht] at hok
      simp at hok
  | @moved t t' ht hs hm =>
    intro r id hr hid
    obtain ⟨u, hu, hf⟩ := hA r id hr hid
    by_cases he : id = t.id
    · subst he
      obtain rfl := Option.some.inj (ht.symm.trans hu)
      exact ⟨t', Function.update_self .., hm.fits hok ht (hq _ _ ht) (points_of hr hid) hf⟩
    · exact ⟨u, by rw [Function.update_of_ne he, hu], hf⟩
  | @hooked t t' state ended ht hs ha hst hb =>
    obtain ⟨hp, hret⟩ := System.marks_spec (hb.marks ht hok)
    intro r id hr hid
    unfold marked at hr
    rw [if_pos hret] at hr
    obtain ⟨r₀, h0, rfl⟩ := Option.map_eq_some_iff.1 hr
    have hid₀ : r₀.taskId = some t.id := by simpa [System.points, h0] using hp
    obtain rfl := Option.some.inj (hid₀.symm.trans hid)
    refine ⟨t', Function.update_self .., ?_⟩
    rw [hst]
    exact fits_final state
  | disowned hb =>
    rw [hb.not_inStep] at hok
    cases hok

theorem System.inStep_apart (hok : s.inStep k ev = true) : Apart k ev.act := by
  intro runner m ended ha spec hs
  unfold System.inStep at hok
  simp only [ha, Bool.and_eq_true, List.all_eq_true] at hok
  simpa using hok.1 spec hs

/-! ## Runs -/

/-- What every state of an orderly run keeps. -/
structure InStep (k : MigrationKey) (s : System) : Prop where
  queued : Queued k s
  agrees : AgreesOn (s.own k) s.db.others

theorem InStep.step (hi : InStep k s) (hok : s.inStep k ev = true) (h : s.step k ev = some s') :
    InStep k s' where
  queued := hi.queued.step (System.inStep_apart hok) h
  agrees := (hi.queued.change (System.inStep_apart hok) h).agrees hok hi.queued.enqueued hi.agrees

theorem Start.inStep (h : System.Start k s) : InStep k s where
  queued := Start.queued h
  agrees r id hr := by rw [h.no_record] at hr; cases hr

/-- The migration is enqueued, spawns a task and waits for it; the task is cancelled. -/
def recomputedInParts : List Action := [.schedule 1, .claim 1 4 7, .start 7, .execute 7 salesHost,
  .finish 7 { spawns := [{ typeCode := "recompute" }], waits := true } .returned, .cancel 1 2,
  .check 1 .returned .returned]

end GenericBackgroundMigration
