import GenericBackground.BackgroundMigration.Change

/-!
# What a step does to the tasks of the migration

`step_change`: every step is one of the changes that a step may make. What holds along runs is
derived from it.
-/

namespace GenericBackgroundMigration

open GenericTaskQueue Traced Lts

variable {k : MigrationKey} {T T' : Table} {D D' : MigrationDb} {E : Env} {id : TaskId}
  {t t' : Task}

/-! ## Statements on one row -/

theorem settleRow_own {f : Task → Except TaskError Task} (hf : ∀ t t', f t = .ok t' → Static t t') :
    (settleRow D id f).others = D.others ∧ (k.task (settleRow D id f).tasks = k.task D.tasks ∨
      ∃ t t', k.task D.tasks t.id = some t ∧ t.id = id ∧ f t = .ok t' ∧ Static t t' ∧
        k.task (settleRow D id f).tasks = Function.update (k.task D.tasks) t.id (some t')) := by
  unfold settleRow settle
  rcases hr : (D.modify [] id f).result with e | D'
  · exact ⟨rfl, .inl rfl⟩
  · obtain ⟨t, t', ht, hft, rfl, -⟩ := Database.modify_ok hr
    refine ⟨rfl, ?_⟩
    obtain ⟨-, rfl⟩ := Table.get_eq_some_iff.1 ht
    have hs := hf t t' hft
    have hu := MigrationKey.task_update (k := k) ht hs
    by_cases ho : k.owns t = true
    · rw [if_pos ho] at hu
      exact .inr ⟨t, t', MigrationKey.task_eq_some.2 ⟨ht, ho⟩, rfl, hft, hs, hu⟩
    · rw [if_neg ho] at hu
      exact .inl hu

variable {s s' : System} {ev : Ev}

theorem Change.update_moved (ht : s.own k t.id = some t) (hs : Static t t')
    (hm : Moves k s ev t t') : Change k s ev (s.own k)
      (k.task (s.db.tasks.update t.id fun _ => t')) s.db.others := by
  rw [MigrationKey.task_update_own ht hs]
  exact .moved ht hs hm

theorem Change.update_hooked {state : MigrationState} {ended : HookEnd}
    (ht : k.task T t.id = some t) (hs : Static t t') (ha : t.state ∈ activeStates)
    (hst : t'.state = state.final) (hb : Settles k s ev t state ended) :
    Change k s ev (k.task T) (k.task (T.update t.id fun _ => t'))
      (marked ev.env.now state ended s.db.others) := by
  rw [MigrationKey.task_update_own ht hs]
  exact .hooked ht hs ha hst hb

theorem settleRow_change {f : Task → Except TaskError Task}
    (hf : ∀ t t', f t = .ok t' → Static t t')
    (hm : ∀ t t', s.own k t.id = some t → t.id = id → f t = .ok t' → Moves k s ev t t') :
    Change k s ev (s.own k) (k.task (settleRow s.db id f).tasks) (settleRow s.db id f).others := by
  obtain ⟨ho, h | ⟨t, t', ht, hid, hft, hs, h⟩⟩ := @settleRow_own k s.db id f hf
  · rw [ho, h]
    exact .same
  · rw [ho, h]
    exact .moved ht hs (hm t t' ht hid hft)

/-! ## Scheduling -/

theorem MigrationKey.key_eq (k : MigrationKey) : k.createArgs.key = some k.uniqueKey := by
  have h : k.uniqueKey ≠ "" := by simp [uniqueKey, String.append_eq_empty_iff]
  simp [CreateArgs.key, createArgs, h]

theorem activeKey_eq_some {a : String} :
    activeKey t = some a ↔ t.state ∈ activeStates ∧ t.uniqueKey = some a := by
  unfold activeKey
  split_ifs with h <;> simp [h]

theorem enqueued_vals {uid : UserId} (hE : E.reg.lookup typeCode = some migrationTaskType) :
    Enqueued k { (k.createArgs.vals E uid 0).create with id := id } where
  ok := ⟨rfl, rfl⟩
  uniqueKey := k.key_eq
  parentId := rfl
  retryPolicy := by
    show normalizeRetryPolicy (((E.reg.lookup typeCode).map TaskType.retryPolicy).getD _) = _
    rw [hE]
    rfl

theorem enqueueTask_change {uid : UserId} {r : Migration} {o : Option MigrationDb}
    (hE : ev.env.reg.lookup typeCode = some migrationTaskType) (hr : Prepared k s.db.others r)
    (h : enqueueTask ev.env uid k { s.db with others := some r } = o) :
    (∀ D, o = some D → Change k s ev (s.own k) (k.task D.tasks) D.others) ∧
      (o = none → typeCode ∉ ev.env.activeTypes) := by
  unfold enqueueTask createTask at h
  rw [k.key_eq, Option.bind_some] at h
  rcases hf : s.db.tasks.rows.find? fun t => activeKey t = some k.uniqueKey with _ | t
  · simp only [hf] at h
    have hfree : ∀ j u, s.own k j = some u → activeKey u ≠ some k.uniqueKey := by
      intro j u hu
      have hm := (Table.get_eq_some_iff.1 (MigrationKey.task_eq_some.1 hu).1).1
      simpa using List.find?_eq_none.1 hf u hm
    split_ifs at h with hty
    · subst h
      refine ⟨fun D hD => ?_, fun hn => by cases hn⟩
      obtain rfl := Option.some.inj hD
      have hq : Enqueued k
          { (k.createArgs.vals ev.env uid 0).create with id := s.db.tasks.nextId } :=
        enqueued_vals hE
      show Change k s ev (s.own k) (k.task (s.db.tasks.insert _)) _
      have ho : k.owns (k.createArgs.vals ev.env uid 0).create = true := hq.ok.owns
      rw [MigrationKey.task_insert_own ho]
      exact .enqueued hr (MigrationKey.task_none (MigrationKey.get_nextId _)) hfree hq rfl
    · subst h
      exact ⟨nofun, fun _ => hty⟩
  · simp only [hf] at h
    have hk : activeKey t = some k.uniqueKey := by simpa using List.find?_some hf
    obtain ⟨hact, hkey⟩ := activeKey_eq_some.1 hk
    have ho : k.owns t = true := by simp [MigrationKey.owns, hkey]
    have ht : s.own k t.id = some t := MigrationKey.task_eq_some.2
      ⟨Table.get_eq_some_iff.2 ⟨List.mem_of_find?_eq_some hf, rfl⟩, ho⟩
    have hres : k.createArgs.onExisting t.id = .existing t.id := rfl
    simp only [hres] at h
    subst h
    refine ⟨fun D hD => ?_, fun hn => by cases hn⟩
    obtain rfl := Option.some.inj hD
    exact .reused hr ht hact

theorem prepared_spec {o : Option Migration} {r : Migration} (hk : ∀ r, o = some r → r.key = k)
    (h : prepared k o = some r) : Prepared k o r := by
  unfold prepared at h
  split at h
  · next r₀ =>
    split_ifs at h with hd
    obtain rfl := Option.some.inj h
    exact ⟨rfl, hk r₀ rfl, .inr ⟨r₀, rfl, hd, rfl⟩⟩
  · obtain rfl := Option.some.inj h
    exact ⟨rfl, rfl, .inl ⟨rfl, rfl⟩⟩

theorem schedule_change {uid : UserId} (hw : Wf k s)
    (hE : ev.env.reg.lookup typeCode = some migrationTaskType) (ha : ev.act = .schedule uid) :
    Change k s ev (s.own k) (k.task (scheduleMigration ev.env uid k s.db).tasks)
      (scheduleMigration ev.env uid k s.db).others := by
  unfold scheduleMigration
  split
  · exact .same
  · next r hp =>
    have hr := prepared_spec hw.record hp
    obtain ⟨hc, hn⟩ := @enqueueTask_change k s ev uid r _ hE hr rfl
    rcases he : enqueueTask ev.env uid k { s.db with others := some r } with _ | D
    · exact .stranded hr ha (hn he)
    · exact hc D he

theorem forceReschedule_change {uid : UserId} {admin : Bool} (hw : Wf k s)
    (hE : ev.env.reg.lookup typeCode = some migrationTaskType) :
    Change k s ev (s.own k) (k.task (actionForceReschedule ev.env uid admin k s.db).tasks)
      (actionForceReschedule ev.env uid admin k s.db).others := by
  unfold actionForceReschedule
  split
  · exact .same
  · next r ho =>
    split_ifs with h
    · generalize hr' : { r with state := .pending, dateCompleted := none } = r'
      have hr : Prepared k s.db.others r' := by
        rw [← hr']
        exact ⟨rfl, hw.record r ho, .inr ⟨r, ho, by rw [h.2]; decide, rfl⟩⟩
      rcases he : enqueueTask ev.env uid k { s.db with others := some r' } with _ | D
      · exact .same
      · exact (enqueueTask_change hE hr he).1 D rfl
    · exact .same

/-! ## Cancellation -/

theorem cancel_change {uid : UserId} {T : Table} (ha : ev.act = .cancel uid id)
    (h : s.db.tasks.actionCancel (ev.env.sees uid) ev.env.now id = .ok T) :
    Change k s ev (s.own k) (k.task T) s.db.others := by
  rcases hg : s.db.tasks.get id with _ | p
  · obtain rfl := Table.actionCancel_none hg h
    exact .same
  · obtain ⟨hp, rfl⟩ := Table.actionCancel_ok hg h
    refine .cancelled ha (fun t ht => ?_) fun j => ?_
    · obtain rfl := Option.some.inj (hg.symm.trans (MigrationKey.task_eq_some.1 ht).1)
      exact hp
    · have hin : ∀ i ∈ Table.cancelled s.db.tasks.rows.length
          (s.db.tasks.rows.filter (ev.env.sees uid)) [id],
          i = id ∨ ∃ t ∈ s.db.tasks.rows, t.id = i ∧ t.parentId ≠ none :=
        Table.cancelled_subset
          (fun t ht p hp _ _ => .inr ⟨t, List.mem_of_mem_filter ht, rfl,
            by rw [hp]; exact Option.some_ne_none p⟩)
          fun i hi => .inl (List.mem_singleton.1 hi)
      rw [MigrationKey.task_updateAll (f := fun t =>
        { t with state := .cancelled, dateCompleted := some ev.env.now })
        fun t _ _ => ⟨rfl, rfl, rfl, rfl, rfl, rfl⟩]
      show _ = k.task s.db.tasks j ∨ ∃ t t', k.task s.db.tasks j = some t ∧ _
      rcases hj : k.task s.db.tasks j with _ | t
      · exact .inl rfl
      · obtain rfl := MigrationKey.task_id hj
        rw [Option.map_some]
        split_ifs with hmem
        · refine .inr ⟨t, _, rfl, rfl, ⟨rfl, rfl, rfl, rfl, rfl, rfl⟩, rfl, fun hne => ?_⟩
          obtain heq | ⟨u, hu, hid, hpar⟩ := hin _ hmem
          · exact absurd heq hne
          · have hm := (Table.get_eq_some_iff.1 (MigrationKey.task_eq_some.1 hj).1).1
            rwa [← Table.eq_of_id hu hm hid]
        · exact .inl rfl

/-! ## The hooks -/

variable {d f : HookEnd} {cause : FailureCause} {error : String}

theorem registered_of_lookup (hE : E.reg.lookup typeCode = some migrationTaskType)
    (ht : RowOk k t) : E.registered t.typeCode = true := by
  unfold Env.registered
  rw [ht.1, hE]
  rfl

theorem markMigration_eq {now : ℕ} {state : MigrationState} {o : Option Migration}
    (ht : RowOk k t) (hk : ∀ r, o = some r → r.key = k) : markMigration now state t o =
      o.map fun r => { r with state := state, dateCompleted := some now } := by
  unfold markMigration
  cases o with
  | none => rfl
  | some r => rw [Option.map_some, Option.map_some, if_pos (by rw [ht.2, hk r rfl])]

theorem migrationHooks_keepsState {now : ℕ} : (migrationHooks now d f).KeepsState := by
  intro cause t D D' h
  unfold migrationHooks at h
  cases f with
  | returned => obtain rfl := FailureHookRun.returned.inj h; rfl
  | raised exc => cases h
  | aborted => cases h

theorem onFailure_marks (ht : RowOk k t) (hk : ∀ r, D.others = some r → r.key = k)
    (hE : E.reg.lookup typeCode = some migrationTaskType)
    (h : (D.onFailure E (fun _ => migrationHooks E.now d f) cause t).result = .ok D') :
    D' = ⟨D.tasks, marked E.now .failed f D.others⟩ := by
  unfold Database.onFailure at h
  rw [if_pos (registered_of_lookup hE ht)] at h
  unfold migrationHooks at h
  cases f with
  | returned =>
    rw [← Except.ok.inj h, markMigration_eq ht hk]
    rfl
  | raised exc => exact (Except.ok.inj h).symm
  | aborted => cases h

theorem onSuccess_marks {now : ℕ} (ht : RowOk k t) (hk : ∀ r, D.others = some r → r.key = k)
    (h : onSuccess now f t D = .ok D') : D' = ⟨D.tasks, marked now .done f D.others⟩ := by
  unfold onSuccess at h
  cases f with
  | returned =>
    rw [← Except.ok.inj h, markMigration_eq ht hk]
    rfl
  | raised exc => exact (Except.ok.inj h).symm
  | aborted => cases h

theorem failTask_marks (hg : D.tasks.get t.id = some t) (ht : RowOk k t)
    (hk : ∀ r, D.others = some r → r.key = k) (hE : E.reg.lookup typeCode = some migrationTaskType)
    (h : (D.failTask E (fun _ => migrationHooks E.now d f) cause error t).result = .ok D') :
    D' = ⟨D.tasks.update t.id fun _ => t.failed E.now error, marked E.now .failed f D.others⟩ := by
  obtain ⟨D₁, h1, h2⟩ := Run.andThen_ok h
  obtain rfl := onFailure_marks ht hk hE h1
  obtain ⟨u, u', hu, hf, rfl, -⟩ := Database.modify_ok h2
  obtain rfl := Option.some.inj (hg.symm.trans hu)
  obtain ⟨-, rfl⟩ := checked_ok hf
  rfl

theorem Task.failed_static (now : ℕ) (error : String) (t : Task) : Static t (t.failed now error) :=
  ⟨rfl, rfl, rfl, rfl, rfl, rfl⟩

theorem Task.done_static (now : ℕ) (result : Option Json) (t : Task) :
    Static t (t.done now result) := ⟨rfl, rfl, rfl, rfl, rfl, rfl⟩

theorem actionAutoRetry_static (eta : Option ℕ) (t : Task) : Static t (actionAutoRetry eta t) :=
  ⟨rfl, rfl, rfl, rfl, rfl, rfl⟩

theorem inFlight_active {x : TaskState} (h : x ∈ inFlightStates) : x ∈ activeStates := by
  revert x; decide

theorem final_active {x : TaskState} (h : x ∈ finalStates) : x ∈ activeStates := by
  revert x; decide

/-! ## Lost executions -/

/-- What the recovery of a lost execution leaves: nothing changed, the task pending, or the task
failed and the record marked. -/
inductive Lost (k : MigrationKey) (now : ℕ) (t : Task) (ended : HookEnd) (D D' : MigrationDb) : Prop
  | same (h : D' = D)
  | pending {t' : Task} (hs : Static t t') (ha : t.state ∈ activeStates) (ht : t'.state = .pending)
      (hV : k.task D'.tasks = Function.update (k.task D.tasks) t.id (some t'))
      (hr : D'.others = D.others)
  | failed {t' : Task} (hs : Static t t') (ha : t.state ∈ activeStates)
      (hn : LostForGood t = true) (ht : t'.state = .failed)
      (hV : k.task D'.tasks = Function.update (k.task D.tasks) t.id (some t'))
      (hr : D'.others = marked now .failed ended D.others)

theorem handleLostExecution_lost {runner : Option RunnerId} {worker : Option WorkerId}
    (ht : k.task D.tasks t.id = some t) (hrow : RowOk k t)
    (hk : ∀ r, D.others = some r → r.key = k) (hE : E.reg.lookup typeCode = some migrationTaskType)
    (h : (D.handleLostExecution E (fun _ => migrationHooks E.now d f) error runner worker
      t.id).result = .ok D') : Lost k E.now t f D D' := by
  have hg := (MigrationKey.task_eq_some.1 ht).1
  unfold Database.handleLostExecution at h
  simp only [hg] at h
  split_ifs at h with hfin hr
  · obtain ⟨u, u', hu, hf, rfl, -⟩ := Database.modify_ok h
    obtain rfl := Option.some.inj (hg.symm.trans hu)
    have hact := inFlight_active (finalizable_iff.1 hfin).1
    rcases handleLostExecution_cases hf with ⟨-, h1⟩ | ⟨-, -, rfl⟩ | ⟨hna, hnr, -⟩
    · obtain ⟨-, rfl⟩ := checked_ok h1
      have hs : Static t { t with state := .pending, workerId := none, runnerId := none } :=
        ⟨rfl, rfl, rfl, rfl, rfl, rfl⟩
      exact .pending hs hact rfl (MigrationKey.task_update_own ht hs) rfl
    · have hs := actionAutoRetry_static (retryEta E.reg E.now t.typeCode t.retryCount) t
      exact .pending hs hact rfl (MigrationKey.task_update_own ht hs) rfl
    · -- a loss that is not to be retried is not handled here
      exact absurd hr (not_or.2 ⟨hna, fun hret => hnr (retriableLoss_iff.1 hret)⟩)
  · have hact := inFlight_active (finalizable_iff.1 hfin).1
    have hs : Static t { t with runnerId := none } := ⟨rfl, rfl, rfl, rfl, rfl, rfl⟩
    have h1 := MigrationKey.task_update_own ht hs
    have ht1 : k.task (D.tasks.update t.id fun _ => { t with runnerId := none }) t.id =
        some { t with runnerId := none } := by rw [h1, Function.update_self]
    obtain rfl := failTask_marks
      (D := ⟨D.tasks.update t.id fun _ => { t with runnerId := none }, D.others⟩)
      (MigrationKey.task_eq_some.1 ht1).1 (hrow.static hs) hk hE h
    have h2 := MigrationKey.task_update_own ht1
      (Task.failed_static E.now error { t with runnerId := none })
    have hlost : LostForGood t = true := by
      unfold LostForGood
      simpa [(finalizable_iff.1 hfin).1, not_or] using hr
    have hst : Static t ({ t with runnerId := none }.failed E.now error) :=
      ⟨rfl, rfl, rfl, rfl, rfl, rfl⟩
    refine .failed hst hact hlost rfl ?_ rfl
    show k.task (Table.update (D.tasks.update _ _) _ _) = _
    rw [h2, h1, Function.update_idem]
  · exact .same (Except.ok.inj h).symm

theorem Lost.change (h : Lost k ev.env.now t f s.db D') (ht : s.own k t.id = some t)
    (hb : LostForGood t = true → Settles k s ev t .failed f) :
    Change k s ev (s.own k) (k.task D'.tasks) D'.others := by
  cases h with
  | same h => exact h ▸ .same
  | pending hs ha hp hV hr =>
    rw [hV, hr]
    refine .moved ht hs (.active ha (by rw [hp]; decide) fun hw => ?_)
    rw [hp] at hw
    cases hw
  | failed hs ha hn hf hV hr =>
    rw [hV, hr]
    exact .hooked ht hs ha hf (hb hn)

theorem settle_change {r : TxRun (Option Migration)}
    (h : ∀ D', r.result = .ok D' → Change k s ev (s.own k) (k.task D'.tasks) D'.others) :
    Change k s ev (s.own k) (k.task (settle s.db r).tasks) (settle s.db r).others := by
  unfold settle
  rcases hr : r.result with e | D'
  · exact .same
  · exact h D' hr

variable (hw : Wf k s) (hE : ev.env.reg.lookup typeCode = some migrationTaskType)

include hw hE in
theorem recover_change (ha : ev.act = .recover id error f) (ht : s.own k id = some t) :
    Change k s ev (s.own k)
      (k.task (settle s.db (s.db.recoverOne ev.env
        (fun _ => migrationHooks ev.env.now d f) error id)).tasks)
      (settle s.db (s.db.recoverOne ev.env
        (fun _ => migrationHooks ev.env.now d f) error id)).others := by
  obtain rfl := MigrationKey.task_id ht
  refine settle_change fun D' h => ?_
  unfold Database.recoverOne Run.savepoint at h
  dsimp only at h
  split at h
  · next D₁ h1 =>
    obtain rfl := Except.ok.inj h
    exact (handleLostExecution_lost ht (hw.rows _ _ ht) hw.record hE h1).change ht
      fun hn => .recover ha hn
  · split_ifs at h
    exact Except.ok.inj h ▸ .same

include hw hE in
theorem resolvedStuck_change {runner : RunnerId} (ha : ev.act = .resolvedStuck runner f)
    (hth : s.threads runner = some ⟨id, .ended⟩) :
    Change k s ev (s.own k)
      (k.task (settle s.db (s.db.resolvedStuckThread ev.env
        (fun _ => migrationHooks ev.env.now d f) runner id)).tasks)
      (settle s.db (s.db.resolvedStuckThread ev.env
        (fun _ => migrationHooks ev.env.now d f) runner id)).others := by
  obtain ⟨t, ht⟩ := hw.threads _ _ hth
  obtain rfl := MigrationKey.task_id ht
  refine settle_change fun D' h => ?_
  have hg : s.db.tasks.get t.id = some t := (MigrationKey.task_eq_some.1 ht).1
  unfold Database.resolvedStuckThread at h
  simp only [hg] at h
  split_ifs at h
  · exact Except.ok.inj h ▸ .same
  · exact Except.ok.inj h ▸ .same
  · exact (handleLostExecution_lost ht (hw.rows _ _ ht) hw.record hE h).change ht
      fun hn => .resolvedStuck ha hth hn

/-! ## The failure handler -/

include hw hE in
theorem handleFailure_change {runner : RunnerId} {traceback : String} {exc : Exc}
    (ha : ev.act = .handleFailure runner traceback f)
    (hth : s.threads runner = some ⟨id, .failing exc⟩) :
    Change k s ev (s.own k)
      (k.task (settle s.db (s.db.failureHandler ev.env
        (fun _ => migrationHooks ev.env.now d f) runner id exc traceback)).tasks)
      (settle s.db (s.db.failureHandler ev.env
        (fun _ => migrationHooks ev.env.now d f) runner id exc traceback)).others := by
  obtain ⟨t, ht⟩ := hw.threads _ _ hth
  obtain rfl := MigrationKey.task_id ht
  refine settle_change fun D' h => ?_
  have hg : s.db.tasks.get t.id = some t := (MigrationKey.task_eq_some.1 ht).1
  unfold Database.failureHandler at h
  simp only [hg] at h
  split_ifs at h with hr hfin
  · -- the task is requeued
    obtain ⟨u, u', hu, hf, rfl, -⟩ := Database.modify_ok h
    obtain rfl := Option.some.inj (hg.symm.trans hu)
    rcases handleFailure_cases hf with ⟨-, eta, rfl⟩ | ⟨hn, -⟩
    · refine .update_moved ht (actionAutoRetry_static eta t)
        (.active (final_active (finalizable_iff.1 hfin).1) (by show TaskState.pending ∈ _; decide)
          fun hp => ?_)
      cases hp
    · rw [hn] at hr
      cases hr
  · exact Except.ok.inj h ▸ .same
  · have hr : retriesFailure exc t = false := by simpa using hr
    obtain ⟨D₁, h1, h2⟩ := Run.andThen_ok h
    obtain rfl := onFailure_marks (hw.rows _ _ ht) hw.record hE h1
    have hany : (s.db.tasks.get t.id).any (finalizable finalStates (some runner) none) =
        finalizable finalStates (some runner) none t := by rw [hg]; rfl
    rw [hany] at h2
    split_ifs at h2 with hfin
    · obtain ⟨u, u', hu, hf, rfl, -⟩ := Database.modify_ok h2
      obtain rfl := Option.some.inj (hg.symm.trans hu)
      obtain ⟨-, rfl⟩ := checked_ok hf
      exact .update_hooked ht (Task.failed_static ev.env.now traceback t)
        (final_active (finalizable_iff.1 hfin).1) rfl (.handle ha hth hr hfin)
    · obtain rfl := Except.ok.inj h2
      exact .disowned (.handle ha hth ht hr (by simpa using hfin))

/-! ## The check of a waiting task -/

theorem failsWith_marks {now : ℕ} {r : TxRun (Option Migration)} (hg : D.tasks.get t.id = some t)
    (ht : RowOk k t) (hk : ∀ r, D.others = some r → r.key = k)
    (h : FailsWith now (migrationHooks now d f) cause error t D r) (hr : r.result = .ok D') :
    D' = ⟨D.tasks.update t.id fun _ => t.failed now error, marked now .failed f D.others⟩ := by
  unfold migrationHooks at h
  cases h with
  | @returned D₁ t' h1 ht' hs =>
    cases f with
    | returned =>
      obtain rfl := FailureHookRun.returned.inj h1
      obtain rfl := Option.some.inj (hg.symm.trans ht')
      rw [← Except.ok.inj hr, markMigration_eq ht hk]
      rfl
    | raised exc => cases h1
    | aborted => cases h1
  | raised h1 =>
    cases f with
    | returned => cases h1
    | raised exc => exact (Except.ok.inj hr).symm
    | aborted => cases h1
  | aborted h1 => cases hr

theorem onAllChildrenDone_ok {now : ℕ} {v : Option Json}
    (h : (migrationHooks now d f).onAllChildrenDone t D = .ok (D', v)) :
    d = .returned ∧ D' = ⟨D.tasks, markMigration now .done t D.others⟩ := by
  unfold migrationHooks at h
  cases d with
  | returned => exact ⟨rfl, (Prod.mk.inj (Except.ok.inj h)).1.symm⟩
  | raised exc => cases h
  | aborted => cases h

include hw hE in
theorem check_change (ha : ev.act = .check id d f) (ht : s.own k id = some t) :
    Change k s ev (s.own k)
      (k.task (settle s.db (s.db.checkWaitingParent ev.env
        (fun _ => migrationHooks ev.env.now d f) id)).tasks)
      (settle s.db (s.db.checkWaitingParent ev.env
        (fun _ => migrationHooks ev.env.now d f) id)).others := by
  obtain rfl := MigrationKey.task_id ht
  refine settle_change fun D' h => ?_
  have hg : s.db.tasks.get t.id = some t := (MigrationKey.task_eq_some.1 ht).1
  have hrow := hw.rows _ _ ht
  have same : ∀ {D'}, (Run.ok s.db : TxRun (Option Migration)).result = .ok D' →
      Change k s ev (s.own k) (k.task D'.tasks) D'.others := fun h => Except.ok.inj h ▸ .same
  by_cases hwait : t.state = .waiting
  swap
  · unfold Database.checkWaitingParent at h
    simp only [hg] at h
    rw [if_pos hwait] at h
    exact same h
  by_cases hc : s.db.tasks.children t.id = []
  · unfold Database.checkWaitingParent at h
    simp only [hg] at h
    rw [if_neg (not_not.2 hwait), if_pos hc] at h
    obtain ⟨u, u', hu, hf, rfl, -⟩ := Database.modify_ok h
    obtain rfl := Option.some.inj (hg.symm.trans hu)
    obtain ⟨-, rfl⟩ := checked_ok hf
    exact .update_moved ht (Task.done_static ev.env.now none t) (.childless ha hwait hc rfl)
  have hact : t.state ∈ activeStates := by rw [hwait]; decide
  have hdec : ParentDecision ev.env.now (migrationHooks ev.env.now d f) t s.db
      (s.db.checkWaitingParent ev.env (fun _ => migrationHooks ev.env.now d f) t.id) :=
    @Database.checkWaitingParent_decision _ s.db ev.env (fun _ => migrationHooks ev.env.now d f) t
      hg hwait (registered_of_lookup hE hrow) hc migrationHooks_keepsState
  by_cases h1 : ∃ c ∈ s.db.tasks.children t.id, c.state ∈ activeStates
  · exact same (hdec.active h1 ▸ h)
  have hq : ∀ c ∈ s.db.tasks.children t.id, c.state ∉ activeStates := fun c hc ha => h1 ⟨c, hc, ha⟩
  have hfails : ∀ {cause error r},
      FailsWith ev.env.now (migrationHooks ev.env.now d f) cause error t s.db r →
      r.result = .ok D' → Change k s ev (s.own k) (k.task D'.tasks) D'.others := by
    intro cause error r hf hr
    obtain rfl := failsWith_marks hg hrow hw.record hf hr
    exact .update_hooked ht (Task.failed_static ev.env.now error t) hact rfl
      (.childrenFailed ha hwait hc hq)
  by_cases h2 : ∃ c ∈ s.db.tasks.children t.id, c.state = .failed ∧ ¬ Retriable c
  · exact hfails (hdec.failed hq h2) h
  by_cases h3 : ∃ c ∈ s.db.tasks.children t.id, c.state = .failed
  · exact same (hdec.retriable hq
      (fun c hc hf => by_contra fun hr => h2 ⟨c, hc, hf, hr⟩) h3 ▸ h)
  have hall : ∀ c ∈ s.db.tasks.children t.id, c.state = .done ∨ c.state = .cancelled := by
    intro c hc
    have hna := hq c hc
    have hnf : c.state ≠ .failed := fun hf => h3 ⟨c, hc, hf⟩
    revert hna hnf
    cases c.state <;> decide
  have hcomp := hdec.complete hall
  generalize hrun : s.db.checkWaitingParent ev.env (fun _ => migrationHooks ev.env.now d f) t.id = r
    at h hcomp
  cases hcomp with
  | moved hr hm =>
    obtain ⟨-, rfl⟩ := onAllChildrenDone_ok hr
    exact absurd (by show (s.db.tasks.get t.id).map Task.state = _; rw [hg, ← hwait]; rfl) hm
  | wave hr hc' =>
    obtain ⟨-, rfl⟩ := onAllChildrenDone_ok hr
    exact absurd hc' h1
  | @completed D₁ v p hr hp hwp hac =>
    obtain ⟨rfl, rfl⟩ := onAllChildrenDone_ok hr
    obtain rfl := Option.some.inj (hg.symm.trans hp)
    obtain rfl := Except.ok.inj h
    show Change k s ev _ (k.task (s.db.tasks.update t.id fun _ => t.done ev.env.now v))
      (markMigration ev.env.now .done t s.db.others)
    rw [markMigration_eq hrow hw.record]
    exact .update_hooked ht (Task.done_static ev.env.now v t) hact rfl
      (.childrenDone ha hwait hc hq (by rw [hrun]; exact List.mem_cons_self))
  | retryTask => exact same h
  | transientError => cases h
  | failed hr hf => exact hfails hf h

/-! ## The end of phase 2 -/

theorem createChildren_grown {p : Task} {specs : List TaskSpec}
    (h : createChildren E p specs T = .ok T') : Grown k (k.task T) (k.task T') ∧
      ((∀ spec ∈ specs, ¬ RunsIt k spec) → k.task T' = k.task T) ∧
      ∀ j t, T.get j = some t → T'.get j = some t := by
  unfold createChildren at h
  split at h
  · cases h
  · obtain rfl := Except.ok.inj h
    generalize hnew : (specs.zipIdx.map fun q => (childVals E p specs.length q.2 q.1).create) = new
    have hchild : ∀ c ∈ new, c.state = .pending ∧
        (k.owns c = true → RowOk k c ∧ ∃ spec ∈ specs, RunsIt k spec) := by
      intro c hc
      rw [← hnew] at hc
      obtain ⟨q, hq, rfl⟩ := List.mem_map.1 hc
      refine ⟨rfl, fun ho => ?_⟩
      have hrun : RunsIt k q.1 := by
        simpa [MigrationKey.owns, childVals, TaskVals.create, RunsIt] using ho
      exact ⟨hrun, q.1, List.fst_mem_of_mem_zipIdx hq, hrun⟩
    refine ⟨fun j => ?_, fun hsp => MigrationKey.task_insert fun c hc => ?_,
      fun j t ht => Table.get_insert ht⟩
    · rcases MigrationKey.get_insert_cases T new j with hg | ⟨hn, q, hq, -, hg⟩
      · exact .inl (by unfold MigrationKey.task; rw [hg])
      · obtain ⟨hp, hown⟩ := hchild q.1 (List.fst_mem_of_mem_zipIdx hq)
        have ho' : k.owns { q.1 with id := j } = k.owns q.1 := rfl
        by_cases ho : k.owns q.1 = true
        · exact .inr ⟨MigrationKey.task_none hn, _, MigrationKey.task_eq_some.2 ⟨hg, ho'.trans ho⟩,
            (hown ho).1, hp⟩
        · refine .inl ?_
          unfold MigrationKey.task
          rw [hg, hn, Option.filter_some, if_neg (by rw [ho']; exact ho)]
          rfl
    · by_contra ho
      obtain ⟨-, spec, hspec, hrun⟩ := (hchild c hc).2 (by simpa using ho)
      exact hsp spec hspec hrun

/-- A phase 2 that commits. -/
structure Finishes (k : MigrationKey) (s : System) (E : Env) (runner : RunnerId) (m : MigrateRun)
    (ended : HookEnd) (f : Finished) : Prop where
  thread : ∃ id record, s.threads runner = some ⟨id, .executing f.attempt.host f.read record⟩
  result : (execute f.attempt.host k (.ok m)).result = .ok m
  calls : f.attempt.calls = (execute f.attempt.host k (.ok m)).events
  row : m.waits = true ∨ finalizable finalStates (some runner) none f.read = true →
    s.db.tasks.get f.read.id = some f.read
  commits : afterExecute E runner m ended f.read s.db = .ok f.db

theorem finished_spec {runner : RunnerId} {m : MigrateRun} {ended : HookEnd} {x : Finished}
    (h : s.finished k E runner m ended = some x) : Finishes k s E runner m ended x := by
  unfold System.finished at h
  split at h
  · next id host read record hth =>
    split_ifs at h with hc
    obtain ⟨hres, hun⟩ := hc
    obtain ⟨D, hD, rfl⟩ := Option.map_eq_some_iff.1 h
    refine ⟨⟨id, record, hth⟩, ?_, rfl, fun hwr => ?_, ?_⟩
    · rcases hx : (execute host k (.ok m)).result with e | m'
      · rw [hx] at hres; cases hres
      · rw [hx] at hres
        exact congrArg _ (Option.some.inj hres)
    · unfold unchanged at hun
      simp only [Bool.and_eq_true, Bool.or_eq_true, Bool.not_eq_true', decide_eq_true_eq,
        Bool.or_eq_false_iff] at hun
      rcases hun.1 with ⟨h1, h2⟩ | h1
      · rcases hwr with hwr | hwr
        · rw [hwr] at h1; cases h1
        · rw [hwr] at h2; cases h2
      · exact h1
    · rcases hx : afterExecute E runner m ended read s.db with e | D'
      · rw [hx] at hD; cases hD
      · rw [hx] at hD
        exact congrArg _ (Option.some.inj hD)
  · cases h

include hw in
omit hE in
theorem finish_change {runner : RunnerId} {m : MigrateRun} {x : Finished}
    (ha : ev.act = .finish runner m f) (hx : s.finished k ev.env runner m f = some x) :
    ∃ V, Grown k (s.own k) V ∧ ((∀ spec ∈ m.spawns, ¬ RunsIt k spec) → V = s.own k) ∧
      Change k s ev V (k.task x.db.tasks) x.db.others := by
  have hfin := finished_spec hx
  obtain ⟨id, record, hth⟩ := hfin.thread
  obtain ⟨hrow, -⟩ := hw.reads _ _ _ _ _ hth
  have h := hfin.commits
  unfold afterExecute at h
  rcases hT : createChildren ev.env x.read m.spawns s.db.tasks with e | T
  · rw [hT] at h
    cases e
    cases h
  obtain ⟨hgrown, hapart, hkeep⟩ := createChildren_grown (k := k) hT
  refine ⟨k.task T, hgrown, hapart, ?_⟩
  rw [hT] at h
  simp only [Except.bind] at h
  -- the row that phase 2 writes
  have hrowT : m.waits = true ∨ finalizable finalStates (some runner) none x.read = true →
      T.get x.read.id = some x.read := fun hwr => hkeep _ _ (hfin.row hwr)
  have htask : T.get x.read.id = some x.read → k.task T x.read.id = some x.read := fun hg =>
    MigrationKey.task_eq_some.2 ⟨hg, hrow.owns⟩
  by_cases hm : m.waits = true
  · have hg := hrowT (.inl hm)
    rw [if_pos hm] at h
    rcases hT₁ : T.modify x.read.id actionWaitChildren with e | T₁
    · rw [hT₁] at h
      cases e
      cases h
    · rw [hT₁] at h
      simp only [hm, true_or, if_true] at h
      rw [← Except.ok.inj h]
      obtain ⟨t', hf, rfl⟩ := Table.modify_ok hg hT₁
      obtain ⟨hst, rfl⟩ := checked_ok hf
      have hs : Static x.read { x.read with state := .waiting } := ⟨rfl, rfl, rfl, rfl, rfl, rfl⟩
      rw [show k.task _ = _ from MigrationKey.task_update_own (htask hg) hs]
      refine .moved (htask hg) hs (.active ?_ (by show TaskState.waiting ∈ _; decide)
        fun _ => .inr ⟨runner, m, f, x, ha, hx, hm, rfl⟩)
      revert hst
      cases x.read.state <;> decide
  · have hm' : m.waits = false := by simpa using hm
    simp only [hm', if_false, false_or, Bool.false_eq_true] at h
    by_cases hwait : x.read.state = .waiting
    · rw [if_pos hwait] at h
      rw [← Except.ok.inj h]
      exact .same
    · rw [if_neg hwait] at h
      rcases h1 : onSuccess ev.env.now f x.read ⟨T, s.db.others⟩ with e | D₁
      · simp only [h1] at h
        cases h
      · simp only [h1] at h
        obtain rfl := onSuccess_marks (D := ⟨T, s.db.others⟩) hrow hw.record h1
        split_ifs at h with ho
        · have hg := hrowT (.inr ho)
          obtain ⟨u, u', hu, hf, hD, -⟩ := Database.modify_ok h
          rw [hD]
          obtain rfl := Option.some.inj (hg.symm.trans hu)
          obtain ⟨-, rfl⟩ := checked_ok hf
          exact .update_hooked (htask hg) (Task.done_static ev.env.now m.result x.read)
            (final_active (finalizable_iff.1 ho).1) rfl (.finish ha hx hm' hwait ho)
        · rw [← Except.ok.inj h]
          exact .disowned (.finish ha hx hm' hwait (by simpa using ho))

/-! ## Steps -/

omit hw hE

theorem active_change {g : Task → Except TaskError Task}
    (hg : ∀ t t', g t = .ok t' → Static t t' ∧ t.state ∈ activeStates ∧ t'.state ∈ activeStates ∧
      (t'.state = .waiting → t.state = .waiting)) :
    Change k s ev (s.own k) (k.task (settleRow s.db id g).tasks) (settleRow s.db id g).others :=
  settleRow_change (fun t t' h => (hg t t' h).1) fun t t' _ _ h =>
    .active (hg t t' h).2.1 (hg t t' h).2.2.1 fun hw => .inl ((hg t t' h).2.2.2 hw)

theorem stepIn_change (hw : Wf k s) (hE : ev.env.reg.lookup typeCode = some migrationTaskType)
    (h : s.stepIn k ev.env ev.act = some s') :
    ∃ V, Grown k (s.own k) V ∧ (Apart k ev.act → V = s.own k) ∧
      Change k s ev V (s'.own k) s'.db.others := by
  have plain : Change k s ev (s.own k) (s'.own k) s'.db.others →
      ∃ V, Grown k (s.own k) V ∧ (Apart k ev.act → V = s.own k) ∧
        Change k s ev V (s'.own k) s'.db.others := fun hc => ⟨_, .refl k _, fun _ => rfl, hc⟩
  generalize ha : ev.act = a at h ⊢
  rw [ha] at plain
  cases stepIn_spec h with
  | refused => exact plain .same
  | schedule => exact plain (schedule_change hw hE ha)
  | forceReschedule => exact plain (forceReschedule_change hw hE)
  | cancel hT => exact plain (cancel_change ha hT)
  | @retry id eta t ht hk =>
    refine plain (settleRow_change (fun t t' hr => ?_) fun u u' hu hid hr => ?_)
    · obtain ⟨-, rfl⟩ := actionRetry_ok hr
      exact ⟨rfl, rfl, rfl, rfl, rfl, rfl⟩
    · subst hid
      obtain rfl := Option.some.inj (ht.symm.trans hu)
      obtain ⟨hf, rfl⟩ := actionRetry_ok hr
      exact .retried ha hf rfl hk
  | @autoRetryFailed id t ht hr =>
    refine plain (settleRow_change (fun t t' h => ?_) fun u u' hu hid hf => ?_)
    · obtain rfl := Except.ok.inj h
      exact actionAutoRetry_static _ t
    · subst hid
      obtain rfl := Option.some.inj (ht.symm.trans hu)
      unfold autoRetryable at hr
      simp only [Bool.and_eq_true, decide_eq_true_eq] at hr
      obtain rfl := Except.ok.inj hf
      exact .autoRetried ha hr.1.2 rfl
  | claim =>
    refine plain (active_change fun t t' h => ?_)
    obtain ⟨hp, rfl⟩ := claimRow_eq h
    exact ⟨⟨rfl, rfl, rfl, rfl, rfl, rfl⟩, by rw [hp]; decide,
      by show TaskState.assigned ∈ _; decide, fun hw => by cases hw⟩
  | start =>
    refine plain (active_change fun t t' h => ?_)
    obtain ⟨hst, rfl⟩ := checked_ok h
    exact ⟨⟨rfl, rfl, rfl, rfl, rfl, rfl⟩, by rw [of_allowed_running hst]; decide,
      by show TaskState.running ∈ _; decide, fun hw => by cases hw⟩
  | startRefused => exact plain .same
  | execute => exact plain .same
  | progress =>
    refine plain (settleRow_change (fun t t' hr => ?_) fun t t' _ _ hr => ?_)
    · obtain rfl := Except.ok.inj hr
      exact ⟨rfl, rfl, rfl, rfl, rfl, rfl⟩
    · obtain rfl := Except.ok.inj hr
      exact .kept rfl
  | finish hx =>
    obtain ⟨V, h1, h2, h3⟩ := finish_change hw ha hx
    exact ⟨V, h1, fun hap => h2 (hap _ _ _ rfl), h3⟩
  | abort => exact plain .same
  | handleFailure hth => exact plain (handleFailure_change hw hE ha hth)
  | die => exact plain .same
  | stuck =>
    refine plain (active_change fun t t' h => ?_)
    obtain ⟨hst, rfl⟩ := checked_ok h
    exact ⟨⟨rfl, rfl, rfl, rfl, rfl, rfl⟩, by rw [of_allowed_stuck hst]; decide,
      by show TaskState.stuck ∈ _; decide, fun hw => by cases hw⟩
  | recover ht => exact plain (recover_change hw hE ha ht)
  | resolvedStuck hth => exact plain (resolvedStuck_change hw hE ha hth)
  | check ht => exact plain (check_change hw hE ha ht)
  | @others T hT =>
    refine plain ?_
    show Change k s ev _ (k.task T) _
    rw [hT]
    exact .same

/-- **One step.** What it changes, once `migrate()` has spawned its tasks. -/
theorem step_change (hw : Wf k s) (h : s.step k ev = some s') :
    ∃ V, Grown k (s.own k) V ∧ (Apart k ev.act → V = s.own k) ∧
      Change k s ev V (s'.own k) s'.db.others := by
  obtain ⟨hE, s₁, h₁, rfl⟩ := step_in h
  obtain ⟨V, hg, hV, hc⟩ := stepIn_change hw hE h₁
  exact ⟨V, hg, hV, hc⟩

end GenericBackgroundMigration
