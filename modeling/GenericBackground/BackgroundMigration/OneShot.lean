import GenericBackground.BackgroundMigration.Agreement

/-!
# One-shot migrations

A record that is done is skipped when migrations are scheduled. The tasks that failed before stay in
the table, though, and a thread that has lost its task goes on. `not_run_again` says in which runs a
migration that is done is not run again: threads call `migrate()` and mark the record only while
they own their task, and no failed task is put back once the record is done (`System.inOrder`).
-/

namespace GenericBackgroundMigration

open GenericTaskQueue Traced Lts

/-! ## Calls and active tasks -/

/-- `execute` goes on to call `migrate()`. -/
def Entry.isCall : Entry → Bool
  | .calls _ => true
  | _ => false

namespace System

variable (k : MigrationKey)

def callsMigrate (s : System) (ev : Ev) : Bool :=
  match ev.act with
  | .execute runner host => (s.threads runner).isSome && (enter host k).isCall
  | _ => false

/-- No two tasks of the migration are active. -/
def OneActive (s : System) : Prop :=
  ∀ i j t u, s.own k i = some t → s.own k j = some u → t.state ∈ activeStates →
    u.state ∈ activeStates → i = j

def done (s : System) : Bool := s.db.others.any (·.state = .done)

/-- The steps of a migration that is run once. -/
def inOrder (s : System) (ev : Ev) : Bool :=
  match ev.act with
  | .retry id _ => (s.own k id).all fun t => t.state ≠ .failed || !s.done
  | .execute runner _ => match s.threads runner with
    | some ⟨id, _⟩ => (s.own k id).all (owned runner)
    | none => true
  | .finish runner m ended =>
    m.spawns.all (fun spec => ¬ RunsIt k spec) && match s.threads runner with
      | some ⟨_, .executing _ read _⟩ => m.waits || read.state = .waiting || !returns ended ||
          owned runner read
      | _ => true
  | .handleFailure runner _ ended => match s.threads runner with
    | some ⟨id, .failing exc⟩ => (s.own k id).all fun t =>
        retriesFailure exc t || !returns ended || owned runner t
    | _ => true
  | _ => true

end System

variable {k : MigrationKey} {s s' : System} {ev : Ev} {V : Tasks} {o : Option Migration}

theorem System.inOrder_apart (hok : s.inOrder k ev = true) : Apart k ev.act := by
  intro runner m ended ha spec hs
  unfold System.inOrder at hok
  simp only [ha, Bool.and_eq_true, List.all_eq_true] at hok
  simpa using hok.1 spec hs

theorem Disowned.not_returns {state : MigrationState} {ended : HookEnd}
    (h : Disowned k s ev state ended) (hok : s.inOrder k ev = true) : returns ended = false := by
  unfold System.inOrder at hok
  cases h with
  | finish ha hf hm hw ho =>
    obtain ⟨id, record, hth⟩ := (finished_spec hf).thread
    simp only [ha, hth, hm, hw, System.owned, ho, Bool.and_eq_true] at hok
    simpa using hok.2
  | handle ha hth ht hr ho =>
    simp only [ha, hth, ht, Option.all_some, hr, System.owned, ho] at hok
    simpa using hok

/-! ## At most one active task -/

def OneActiveOn (V : Tasks) : Prop :=
  ∀ i j t u, V i = some t → V j = some u → t.state ∈ activeStates → u.state ∈ activeStates → i = j

/-- A write of task `i` that leaves it active only if it was, or if no other is. -/
theorem OneActiveOn.update {i : TaskId} {t' : Task} (h : OneActiveOn V)
    (ht : t'.state ∈ activeStates → ∀ j u, V j = some u → u.state ∈ activeStates → j = i) :
    OneActiveOn (Function.update V i (some t')) := by
  intro a b u v hu hv hua hva
  rcases update_eq_some.1 hu with ⟨rfl, rfl⟩ | ⟨-, hu'⟩
  · rcases update_eq_some.1 hv with ⟨rfl, -⟩ | ⟨-, hv'⟩
    · rfl
    · exact (ht hua b v hv' hva).symm
  · rcases update_eq_some.1 hv with ⟨rfl, rfl⟩ | ⟨-, hv'⟩
    · exact ht hva a u hu' hua
    · exact h a b u v hu' hv' hua hva

theorem OneActiveOn.active {t t' : Task} (h : OneActiveOn V) (ht : V t.id = some t)
    (ha : t'.state ∈ activeStates → t.state ∈ activeStates) :
    OneActiveOn (Function.update V t.id (some t')) :=
  h.update fun h' j u hu hua => h j t.id u t hu ht hua (ha h')

/-- **One step.** At most one task of the migration is active. -/
theorem Change.oneActive (h : Change k s ev (s.own k) V o)
    (hq : ∀ j t, s.own k j = some t → Enqueued k t) (h1 : OneActiveOn (s.own k)) :
    OneActiveOn V := by
  have key : ∀ j u, s.own k j = some u → u.state ∈ activeStates →
      activeKey u = some k.uniqueKey := fun j u hu ha =>
    activeKey_eq_some.2 ⟨ha, (hq j u hu).uniqueKey⟩
  cases h with
  | same => exact h1
  | enqueued hr hid hfree ht hp =>
    exact h1.update fun _ j u hu ha => absurd (key j u hu ha) (hfree j u hu)
  | reused => exact h1
  | stranded => exact h1
  | cancelled ha hc hV =>
    have back : ∀ {j u}, V j = some u → u.state ∈ activeStates → s.own k j = some u := by
      intro j u hu hua
      rcases hV j with h | ⟨t, t', -, ht', -, hst, -⟩
      · exact h ▸ hu
      · obtain rfl := Option.some.inj (ht'.symm.trans hu)
        rw [hst] at hua
        exact absurd hua (by decide)
    exact fun i j t u ht hu hta hua => h1 i j t u (back ht hta) (back hu hua) hta hua
  | @moved t t' ht hs hm =>
    cases hm with
    | kept h => exact h1.active ht fun h' => h ▸ h'
    | active ha => exact h1.active ht fun _ => ha
    | retried ha hst hp hk =>
      -- the unique index refuses the write while another task is active
      refine h1.update fun _ j u hu hua => by_contra fun hne => ?_
      have hg := (Table.get_eq_some_iff.1 (MigrationKey.task_eq_some.1 hu).1)
      unfold keyTaken at hk
      rw [(hq _ _ ht).uniqueKey] at hk
      simp only [Option.any_some, List.any_eq_false, decide_eq_true_eq] at hk
      exact hk u hg.1 ⟨by rw [hg.2]; exact hne, key j u hu hua⟩
    | autoRetried ha hpol =>
      rw [(hq _ _ ht).retryPolicy] at hpol
      cases hpol
    | childless ha hw hc hd =>
      exact h1.active ht fun h' => by rw [hw]; decide
  | hooked ht hs ha => exact h1.active ht fun _ => ha
  | disowned => exact h1

/-! ## Nothing is active once the record is done -/

def QuietOn (V : Tasks) (o : Option Migration) : Prop :=
  (o.any fun r => r.state = .done) = true → ∀ j t, V j = some t → t.state ∉ activeStates

theorem marked_returns {now : ℕ} {state : MigrationState} {ended : HookEnd}
    (h : returns ended = true) : marked now state ended o =
      o.map fun r => { r with state := state, dateCompleted := some now } := by
  unfold marked; rw [if_pos h]

theorem marked_not_returns {now : ℕ} {state : MigrationState} {ended : HookEnd}
    (h : returns ended = false) : marked now state ended o = o := by
  unfold marked; rw [h]; rfl

/-- **One step.** In a step in order, the tasks of a migration that is done are left alone. -/
theorem Change.quiet (h : Change k s ev (s.own k) V o) (hok : s.inOrder k ev = true)
    (hq : ∀ j t, s.own k j = some t → Enqueued k t) (h1 : OneActiveOn (s.own k))
    (hQ : QuietOn (s.own k) s.db.others) : QuietOn V o := by
  have upd : ∀ {i : TaskId} {t' : Task}, t'.state ∉ activeStates →
      (∀ j u, j ≠ i → s.own k j = some u → u.state ∉ activeStates) →
      ∀ j t, Function.update (s.own k) i (some t') j = some t → t.state ∉ activeStates := by
    intro i t' ht' hrest j t ht
    rcases update_eq_some.1 ht with ⟨-, rfl⟩ | ⟨hne, ht⟩
    · exact ht'
    · exact hrest j t hne ht
  cases h with
  | same => exact hQ
  | enqueued hr =>
    intro hd
    rw [Option.any_some, hr.state] at hd
    cases hd
  | reused hr =>
    intro hd
    rw [Option.any_some, hr.state] at hd
    cases hd
  | stranded hr =>
    intro hd
    rw [Option.any_some, hr.state] at hd
    cases hd
  | cancelled ha hc hV =>
    intro hd j t ht
    rcases hV j with h | ⟨u, u', -, hu', -, hst, -⟩
    · exact hQ hd j t (h ▸ ht)
    · obtain rfl := Option.some.inj (hu'.symm.trans ht)
      rw [hst]
      decide
  | @moved t t' ht hs hm =>
    intro hd
    have hno : t.state ∉ activeStates := hQ hd _ _ ht
    refine upd ?_ fun j u _ hu => hQ hd j u hu
    cases hm with
    | kept h => rwa [h]
    | active ha => exact absurd ha hno
    | retried ha hst =>
      unfold System.inOrder at hok
      simp only [ha, ht, Option.all_some, hst, System.done, hd] at hok
      simp at hok
    | autoRetried ha hpol =>
      rw [(hq _ _ ht).retryPolicy] at hpol
      cases hpol
    | childless ha hw => exact absurd (by rw [hw]; decide) hno
  | @hooked t t' state ended ht hs ha hst hb =>
    by_cases hret : returns ended = true
    · rw [marked_returns hret]
      intro hd
      have hdone : state = .done := by
        rcases ho : s.db.others with _ | r
        · rw [ho] at hd; cases hd
        · rw [ho] at hd; exact of_decide_eq_true hd
      subst hdone
      -- the task was the only active one, and it is done
      exact upd (by rw [hst]; decide) fun j u hne hu hua => hne (h1 j t.id u t hu ht hua ha)
    · rw [marked_not_returns (by simpa using hret)]
      exact fun hd => absurd ha (hQ hd _ _ ht)
  | disowned hb =>
    rw [marked_not_returns (hb.not_returns hok)]
    exact hQ

/-! ## Runs -/

/-- What every state of a run in order keeps. -/
structure InOrder (k : MigrationKey) (s : System) : Prop where
  queued : Queued k s
  oneActive : OneActiveOn (s.own k)
  quiet : QuietOn (s.own k) s.db.others

theorem Start.inOrder (h : System.Start k s) : InOrder k s where
  queued := Start.queued h
  oneActive i j t u ht := by rw [Start.own_eq_none h i] at ht; cases ht
  quiet hd := by rw [h.no_record] at hd; cases hd

theorem InOrder.step (hi : InOrder k s) (hok : s.inOrder k ev = true) (h : s.step k ev = some s') :
    InOrder k s' where
  queued := hi.queued.step (System.inOrder_apart hok) h
  oneActive := (hi.queued.change (System.inOrder_apart hok) h).oneActive hi.queued.enqueued
    hi.oneActive
  quiet := (hi.queued.change (System.inOrder_apart hok) h).quiet hok hi.queued.enqueued hi.oneActive
    hi.quiet

theorem InOrder.path {es : List Ev} (hi : InOrder k s)
    (hp : Path (System.step k) (fun s ev => s.inOrder k ev = true) s es s') : InOrder k s' :=
  hp.inv (fun _ _ _ hi hok hs => InOrder.step hi hok hs) hi

theorem InOrder.done (hi : InOrder k s) (hok : s.inOrder k ev = true) (h : s.step k ev = some s')
    (hd : s.done = true) : s'.done = true := by
  have hQ := hi.quiet hd
  have notDone : ∀ {r}, Prepared k s.db.others r → False := by
    intro r hr
    unfold System.done at hd
    rcases hr.taskId with ⟨hn, -⟩ | ⟨r₀, h0, hst, -⟩
    · rw [hn] at hd; cases hd
    · rw [h0] at hd; exact hst (of_decide_eq_true hd)
  have hc := hi.queued.change (System.inOrder_apart hok) h
  unfold System.done at hd ⊢
  generalize s'.own k = V at hc
  generalize s'.db.others = o at hc ⊢
  cases hc with
  | same => exact hd
  | enqueued hr => exact (notDone hr).elim
  | reused hr => exact (notDone hr).elim
  | stranded hr => exact (notDone hr).elim
  | cancelled => exact hd
  | moved => exact hd
  | hooked ht hs ha => exact absurd ha (hQ _ _ ht)
  | disowned hb => rwa [marked_not_returns (hb.not_returns hok)]

theorem InOrder.not_callsMigrate (hi : InOrder k s) (hok : s.inOrder k ev = true)
    (hd : s.done = true) : s.callsMigrate k ev = false := by
  unfold System.callsMigrate
  cases ha : ev.act with
  | execute runner host =>
    rcases hth : s.threads runner with _ | th
    · simp only [hth, Option.isSome_none, Bool.false_and]
    · obtain ⟨t, ht⟩ := hi.queued.wf.threads _ _ hth
      unfold System.inOrder at hok
      simp only [ha, hth, ht, Option.all_some] at hok
      -- the thread owns its task, which is active then
      exact absurd (final_active (finalizable_iff.1 hok).1) (hi.quiet hd _ _ ht)
  | _ => rfl

/-- The migration is found, and run. -/
def runOnce : System := reached (System.step recomputeTotals)
  (fun s ev => s.inOrder recomputeTotals ev = true) beforeUpgrade (at100 [.schedule 1,
    .claim 1 4 7, .start 7, .execute 7 salesHost, .finish 7 {} .returned])

/-- The first task fails; an administrator reschedules the migration, and a second task finishes
it. -/
def doneAtLast : System := reached (System.step recomputeTotals) anyStep beforeUpgrade (at100
  [.schedule 1, .claim 1 4 7, .start 7, .execute 7 salesHost, .abort 7 (.other "division by zero"),
    .handleFailure 7 "Traceback" .returned, .forceReschedule 1 true, .claim 2 4 8, .start 8,
    .execute 8 salesHost, .finish 8 {} .returned])

/-- Then somebody retries the first task, and a worker takes it. -/
def firstRetried : System := reached (System.step recomputeTotals) anyStep doneAtLast
  (at100 [.retry 1 none, .claim 1 4 9, .start 9])

end GenericBackgroundMigration
