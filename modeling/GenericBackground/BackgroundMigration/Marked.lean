import GenericBackground.BackgroundMigration.OneShot

/-!
# Records that are marked done

A record is marked done by `on_success`, at the end of an execution that did not wait, and by
`on_all_children_done`, for an execution that did. Either runs after any normal return of
`execute()`, which also returns when it finds no module or no file. `marked_iff_found`: in the
attempt that a mark is due to, `migrate()` was called and returned exactly if the file was found.
-/

namespace GenericBackgroundMigration

open GenericTaskQueue Traced Lts

def Attempt.migrated (a : Attempt) : Bool := a.calls.any MigrateCall.returned

variable {k : MigrationKey} {s s' : System} {ev : Ev} {V : Tasks} {o : Option Migration}

/-- A hook marks the record done, for this attempt. -/
inductive MarksDone (k : MigrationKey) (s : System) (ev : Ev) : Option Attempt → Prop
  | onSuccess {runner : RunnerId} {m : MigrateRun} {f : Finished}
      (ha : ev.act = .finish runner m .returned)
      (hf : s.finished k ev.env runner m .returned = some f) (hm : m.waits = false)
      (hw : f.read.state ≠ .waiting) : MarksDone k s ev (some f.attempt)
  | onAllChildrenDone {id : TaskId} {d f : HookEnd} {v : Option Json} (ha : ev.act = .check id d f)
      (he : .onAllChildrenDone id (.ok v) ∈ (s.db.checkWaitingParent ev.env
        (fun _ => migrationHooks ev.env.now d f) id).events) : MarksDone k s ev (s.attempts id)

/-! ## One attempt -/

theorem enter_calls {H : Host} {file : String} (h : enter H k = .calls file) : Found H k := by
  unfold enter at h
  split_ifs at h
  split at h
  · cases h
  · next path hpath =>
    split_ifs at h with hfile
    exact ⟨path, hpath, by simpa using hfile⟩

theorem enter_returns {H : Host} (h : enter H k = .returns) : ¬ Found H k := by
  rintro ⟨path, hpath, hfile⟩
  unfold enter at h
  simp only [hpath, hfile, not_true_eq_false, if_false] at h
  split_ifs at h
  split at h <;> cases h

theorem execute_ok {H : Host} {m m' : MigrateRun} (h : (execute H k (.ok m)).result = .ok m') :
    (execute H k (.ok m)).events.any MigrateCall.returned = true ↔ Found H k := by
  unfold execute at h ⊢
  cases he : enter H k with
  | raises exc =>
    rw [he] at h
    cases h
  | returns =>
    constructor
    · intro hc; cases hc
    · exact fun hf => absurd hf (enter_returns he)
  | calls file =>
    constructor
    · exact fun _ => enter_calls he
    · exact fun _ => rfl

/-- The attempt has run `migrate()` exactly if it found the file. -/
def RanIfFound (k : MigrationKey) (a : Attempt) : Prop := a.migrated = true ↔ Found a.host k

/-- **One attempt.** A phase 2 that commits has run `migrate()` exactly if it found the file. -/
theorem Finishes.ranIfFound {E : Env} {runner : RunnerId} {m : MigrateRun} {ended : HookEnd}
    {f : Finished} (h : Finishes k s E runner m ended f) : RanIfFound k f.attempt := by
  unfold RanIfFound Attempt.migrated
  rw [h.calls]
  exact execute_ok h.result

/-! ## The attempts of waiting tasks -/

/-- A task that waits has an attempt, which has run `migrate()` exactly if it found the file. -/
def Attempted (k : MigrationKey) (s : System) : Prop :=
  ∀ j t, s.own k j = some t → t.state = .waiting → ∃ a, s.attempts j = some a ∧ RanIfFound k a

theorem attemptsAfter_eq : s.attemptsAfter k ev = s.attempts ∨ ∃ runner m ended f,
    s.finished k ev.env runner m ended = some f ∧
      s.attemptsAfter k ev = Function.update s.attempts f.read.id (some f.attempt) := by
  unfold System.attemptsAfter
  split
  · next runner m ended _ =>
    split
    · next f hf =>
      split_ifs
      · exact .inr ⟨runner, m, ended, f, hf, rfl⟩
      · exact .inl rfl
    · exact .inl rfl
  · exact .inl rfl

theorem attemptsAfter_ran {j : TaskId} (h : ∃ a, s.attempts j = some a ∧ RanIfFound k a) :
    ∃ a, s.attemptsAfter k ev j = some a ∧ RanIfFound k a := by
  rcases @attemptsAfter_eq k s ev with he | ⟨runner, m, ended, f, hf, he⟩
  · rwa [he]
  · rw [he]
    by_cases hj : j = f.read.id
    · subst hj
      exact ⟨_, Function.update_self .., (finished_spec hf).ranIfFound⟩
    · rwa [Function.update_of_ne hj]

theorem attemptsAfter_finish {runner : RunnerId} {m : MigrateRun} {ended : HookEnd} {f : Finished}
    (ha : ev.act = .finish runner m ended) (hf : s.finished k ev.env runner m ended = some f)
    (hm : m.waits = true) : s.attemptsAfter k ev f.read.id = some f.attempt := by
  unfold System.attemptsAfter
  simp only [ha, hf, hm, if_true]
  exact Function.update_self ..

theorem Change.waits (h : Change k s ev V (s'.own k) o) {j : TaskId} {t' : Task}
    (ht' : s'.own k j = some t') (hw : t'.state = .waiting) :
    (∃ t, V j = some t ∧ t.state = .waiting) ∨ ∃ runner m ended f,
      ev.act = .finish runner m ended ∧ s.finished k ev.env runner m ended = some f ∧
        m.waits = true ∧ f.read.id = j := by
  generalize s'.own k = V' at h ht'
  cases h with
  | same => exact .inl ⟨t', ht', hw⟩
  | enqueued hr hid hfree ht hp =>
    obtain ⟨-, rfl⟩ | ⟨-, hV⟩ := update_eq_some.1 ht'
    · rw [hp] at hw; cases hw
    · exact .inl ⟨t', hV, hw⟩
  | reused => exact .inl ⟨t', ht', hw⟩
  | stranded => exact .inl ⟨t', ht', hw⟩
  | cancelled ha hc hV =>
    rcases hV j with he | ⟨u, u', -, hu', -, hst, -⟩
    · exact .inl ⟨t', he ▸ ht', hw⟩
    · obtain rfl := Option.some.inj (hu'.symm.trans ht')
      rw [hst] at hw
      cases hw
  | moved ht hs hm =>
    obtain ⟨rfl, rfl⟩ | ⟨-, hV⟩ := update_eq_some.1 ht'
    · cases hm with
      | kept h => exact .inl ⟨_, ht, h ▸ hw⟩
      | active ha ha' hwait =>
        rcases hwait hw with h | h
        · exact .inl ⟨_, ht, h⟩
        · exact .inr h
      | retried ha hst hp => rw [hp] at hw; cases hw
      | autoRetried ha hpol hp => rw [hp] at hw; cases hw
      | childless ha hst hc hd => rw [hd] at hw; cases hw
    · exact .inl ⟨t', hV, hw⟩
  | @hooked t u state ended ht hs ha hst hb =>
    obtain ⟨rfl, rfl⟩ | ⟨-, hV⟩ := update_eq_some.1 ht'
    · rw [hst] at hw
      cases state <;> cases hw
    · exact .inl ⟨t', hV, hw⟩
  | disowned => exact .inl ⟨t', ht', hw⟩

/-- **One step.** The tasks that wait have their attempts. -/
theorem Attempted.step (hw : Wf k s) (hi : Attempted k s) (h : s.step k ev = some s') :
    Attempted k s' := by
  obtain ⟨V, hg, -, hc⟩ := step_change hw h
  obtain ⟨-, s₁, -, hs₁⟩ := step_in h
  have hatt : s'.attempts = s.attemptsAfter k ev := by rw [hs₁]
  intro j t' ht' hwait
  rw [hatt]
  rcases hc.waits ht' hwait with ⟨t, ht, hst⟩ | ⟨runner, m, ended, f, ha, hf, hm, rfl⟩
  · -- a task that `migrate()` has spawned is pending
    rcases hg j with he | ⟨-, u, hu, -, hp⟩
    · exact attemptsAfter_ran (hi j t (he ▸ ht) hst)
    · obtain rfl := Option.some.inj (hu.symm.trans ht)
      rw [hp] at hst
      cases hst
  · exact ⟨_, attemptsAfter_finish ha hf hm, (finished_spec hf).ranIfFound⟩

/-! ## Marks -/

theorem checkWaitingParent_waiting {D : MigrationDb} {E : Env} {hooks : TypeCode → TypeHooks _}
    {id : TaskId} {e : TxEvent} {t : Task} (hg : D.tasks.get id = some t)
    (he : e ∈ (D.checkWaitingParent E hooks id).events) : t.state = .waiting := by
  unfold Database.checkWaitingParent at he
  simp only [hg] at he
  by_contra hw
  rw [if_pos hw] at he
  cases he

theorem MarksDone.attempt {a : Option Attempt} (hi : Attempted k s) (h : MarksDone k s ev a)
    (hs : s.step k ev = some s') : ∃ b, a = some b ∧ RanIfFound k b := by
  cases h with
  | onSuccess ha hf hm hw => exact ⟨_, rfl, (finished_spec hf).ranIfFound⟩
  | @onAllChildrenDone id d f v ha he =>
    obtain ⟨-, s₁, hs₁, -⟩ := step_in hs
    rw [ha] at hs₁
    obtain ⟨t, ht, -⟩ := Option.map_eq_some_iff.1 hs₁
    exact hi id t ht (checkWaitingParent_waiting (MigrationKey.task_eq_some.1 ht).1 he)

theorem Change.marksDone (h : Change k s ev V (s'.own k) s'.db.others) (hd : s.done = false)
    (hd' : s'.done = true) : ∃ a, MarksDone k s ev a := by
  unfold System.done at hd hd'
  have same : s'.db.others ≠ s.db.others := fun he => by rw [he, hd] at hd'; cases hd'
  -- a mark that is kept, and makes the record done, is the mark of a hook that returned
  have mark : ∀ {now state ended}, marked now state ended s.db.others = s'.db.others →
      state = .done ∧ ended = .returned := by
    intro now state ended he
    cases ended with
    | returned =>
      rw [← he, marked_returns rfl] at hd'
      rcases ho : s.db.others with _ | r
      · rw [ho] at hd'; cases hd'
      · rw [ho] at hd'; exact ⟨of_decide_eq_true hd', rfl⟩
    | raised exc => exact absurd ((marked_not_returns rfl).symm.trans he).symm same
    | aborted => exact absurd ((marked_not_returns rfl).symm.trans he).symm same
  generalize s'.own k = V' at h
  generalize s'.db.others = o at h hd' same mark
  cases h with
  | same => exact absurd rfl same
  | enqueued hr => rw [Option.any_some, hr.state] at hd'; cases hd'
  | reused hr => rw [Option.any_some, hr.state] at hd'; cases hd'
  | stranded hr => rw [Option.any_some, hr.state] at hd'; cases hd'
  | cancelled => exact absurd rfl same
  | moved => exact absurd rfl same
  | hooked ht hs ha hst hb =>
    obtain ⟨rfl, rfl⟩ := mark rfl
    cases hb with
    | finish ha hf hm hw => exact ⟨_, .onSuccess ha hf hm hw⟩
    | childrenDone ha hw hc hq he => exact ⟨_, .onAllChildrenDone ha he⟩
  | disowned hb =>
    obtain ⟨rfl, rfl⟩ := mark rfl
    cases hb with
    | finish ha hf hm hw => exact ⟨_, .onSuccess ha hf hm hw⟩

/-! ## Runs -/

theorem Start.attempted (h : System.Start k s) : Attempted k s := by
  intro j t ht
  rw [Start.own_eq_none h j] at ht
  cases ht

/-- **Marked if it ran.** In every run, a step that makes the record done is one of a hook, and the
attempt that a hook marks the record for has run `migrate()` exactly if it found the file. -/
theorem marked_iff_found {u v : System} {es : List Ev} (h : System.Start k s)
    (hp : Path (System.step k) anyStep s es s') (ht : Takes (System.step k) s es u ev v) :
    (∀ a, MarksDone k u ev a → ∃ b, a = some b ∧ (b.migrated = true ↔ Found b.host k)) ∧
      (u.done = false → v.done = true → ∃ a, MarksDone k u ev a) := by
  obtain ⟨⟨mid, hmid⟩, -, hs⟩ := hp.takes ht
  have hw : Wf k u := Wf.path h hmid
  have hi : Attempted k u := hmid.inv_of (fun _ _ _ hw _ hs => Wf.step hw hs)
    (fun _ _ _ hw hi _ hs => Attempted.step hw hi hs) (Start.wf h) (Start.attempted h)
  obtain ⟨V, -, -, hc⟩ := step_change hw hs
  exact ⟨fun a hm => hm.attempt hi hs, hc.marksDone⟩

/-- The migration has spawned a task and waits for it; the task is cancelled. -/
def recomputedUnchecked : System :=
  reached (System.step recomputeTotals) anyStep beforeUpgrade (at100 recomputedInParts.dropLast)

/-- Its check marks the record, and `migrate()` has run. -/
theorem recomputedInParts_marked : ∃ v a,
    Takes (System.step recomputeTotals) beforeUpgrade (at100 recomputedInParts) recomputedUnchecked
      ⟨salesEnv 100, .check 1 .returned .returned⟩ v ∧
    MarksDone recomputeTotals recomputedUnchecked ⟨salesEnv 100, .check 1 .returned .returned⟩
      (some a) ∧ a.calls = [⟨"/addons/sales/migrations/18.0.1.2.3/background-recompute-totals.py",
        true⟩] ∧ (a.migrated = true ↔ Found a.host recomputeTotals) := by
  have hp : Path (System.step recomputeTotals) anyStep beforeUpgrade (at100 recomputedInParts) _ :=
    path_reached (by decide +kernel)
  have hpre : Path (System.step recomputeTotals) anyStep beforeUpgrade
      (at100 recomputedInParts.dropLast) recomputedUnchecked := path_reached (by decide +kernel)
  have ht : Takes (System.step recomputeTotals) beforeUpgrade (at100 recomputedInParts)
      recomputedUnchecked ⟨salesEnv 100, .check 1 .returned .returned⟩ _ :=
    ⟨_, [], rfl, hpre, rfl⟩
  have hm : MarksDone recomputeTotals recomputedUnchecked
      ⟨salesEnv 100, .check 1 .returned .returned⟩ (recomputedUnchecked.attempts 1) :=
    .onAllChildrenDone rfl List.mem_cons_self
  obtain ⟨a, ha, hran⟩ := (marked_iff_found beforeUpgrade_start hp ht).1 _ hm
  have hcalls : (recomputedUnchecked.attempts 1).map Attempt.calls =
      some [⟨"/addons/sales/migrations/18.0.1.2.3/background-recompute-totals.py", true⟩] := rfl
  rw [ha] at hm hcalls
  exact ⟨_, a, ht, hm, Option.some.inj hcalls, hran⟩

def uninstalledHost : Host := { salesHost with getModulePath := fun _ => none }

/-- Its worker has begun to execute the migration. -/
def uninstalled : System := reached (System.step recomputeTotals) anyStep beforeUpgrade
  (at100 [.schedule 1, .claim 1 4 7, .start 7, .execute 7 uninstalledHost])

/-- `execute()` returns early, and the record is marked done: `migrate()` is never called. -/
theorem uninstalled_marked : ∃ es v a,
    Path (System.step recomputeTotals) anyStep beforeUpgrade es uninstalled ∧
    uninstalled.step recomputeTotals ⟨salesEnv 100, .finish 7 {} .returned⟩ = some v ∧
    MarksDone recomputeTotals uninstalled ⟨salesEnv 100, .finish 7 {} .returned⟩ (some a) ∧
    uninstalled.done = false ∧ v.done = true ∧ a.calls = [] :=
  ⟨_, _, _, path_reached (by decide +kernel), rfl, .onSuccess rfl rfl rfl (by decide), rfl, rfl,
    rfl⟩

end GenericBackgroundMigration
