import GenericBackground.TaskQueue.ProtectedFields

/-!
# Calls of one user and tasks of another

A call changes no task of another user, whatever it is called with (`UserCall.others`). It may still
add children to such a task, and then it changes what `_check_waiting_parent` makes of it: the check
reads the task and its children, and nothing else (`decision_congr`). `protected_fields_kept`: in
runs whose calls forge nothing, it does not.
-/

namespace GenericTaskQueue

open Query Lts

def Table.others (T : Table) (uid : UserId) : List Task := T.rows.filter (·.createUid ≠ uid)

section Others

variable {T T' : Table} {ids : List TaskId} {f : Task → Task} {uid : UserId} {E : Env} {t : Task}
  {ctx : Context}

theorem others_updateAll
    (h : ∀ t ∈ T.rows, t.id ∈ ids → t.createUid = uid ∧ (f t).createUid = uid) :
    (T.updateAll ids f).others uid = T.others uid := by
  unfold Table.others Table.updateAll
  dsimp only
  generalize T.rows = rows at h ⊢
  induction rows with
  | nil => rfl
  | cons t rows ih =>
    have ih := ih fun u hu => h u (List.mem_cons_of_mem t hu)
    rw [List.map_cons, List.filter_cons, List.filter_cons, ih]
    by_cases hid : t.id ∈ ids
    · obtain ⟨hu, hf⟩ := h t List.mem_cons_self hid
      simp [hid, hf, hu]
    · simp [hid]

theorem others_insert {new : List Task} (h : ∀ t ∈ new, t.createUid = uid) :
    (T.insert new).others uid = T.others uid := by
  unfold Table.others Table.insert
  dsimp only
  rw [List.filter_append, List.append_right_eq_self, List.filter_eq_nil_iff]
  intro t ht
  obtain ⟨q, hq, rfl⟩ := List.mem_map.1 ht
  simpa using h q.1 (List.fst_mem_of_mem_zipIdx hq)

theorem others_modify {id : TaskId} {g : Task → Except TaskError Task}
    (hg : ∀ t t', g t = .ok t' → t'.createUid = t.createUid)
    (ho : ∀ t ∈ T.rows, t.id ∈ ids → t.createUid = uid) (hid : id ∈ ids)
    (h : T.modify id g = .ok T') :
    T'.others uid = T.others uid ∧ ∀ t ∈ T'.rows, t.id ∈ ids → t.createUid = uid := by
  cases ht : T.get id with
  | none =>
    unfold Table.modify at h
    rw [ht] at h
    obtain rfl := Except.ok.inj h
    exact ⟨rfl, ho⟩
  | some t =>
    obtain ⟨t', hf, rfl⟩ := Table.modify_ok ht h
    obtain ⟨hm, rfl⟩ := Table.get_eq_some_iff.1 ht
    have hu : t'.createUid = uid := (hg t t' hf).trans (ho t hm hid)
    refine ⟨others_updateAll fun u hu' hm' => ⟨ho u hu' ?_, hu⟩, fun u hu' hm' => ?_⟩
    · rw [List.mem_singleton.1 hm']
      exact hid
    · obtain ⟨w, hw, rfl⟩ := List.mem_map.1 hu'
      split_ifs at hm' ⊢ with hwid
      · exact hu
      · exact ho w hw hm'

theorem others_write {v : ClientVals} (h : Rpc.write uid ids v T = .ok T') :
    T'.others uid = T.others uid := by
  obtain ⟨-, ha, rfl⟩ := Rpc.write_ok h
  exact others_updateAll fun t ht hid => ⟨checkAccess_ok ha t ht hid, checkAccess_ok ha t ht hid⟩

/-- **Confinement.** No call of a user touches the tasks of the others. -/
theorem UserCall.others {c : UserCall} (h : c.run E uid ctx T = .ok T') :
    T'.others uid = T.others uid := by
  rcases UserCall.creates_ok h with rfl | ⟨valsList, -, h⟩ | ⟨ids, vals, rfl⟩ | ⟨ids, rfl⟩ |
    ⟨ids, eta, rfl⟩
  · rfl
  · refine Rpc.create_keeps (P := fun T₁ => T₁.others uid = T.others uid) (F := fun _ => True)
      (Q := fun _ _ => True) ?_ ?_ ?_ (fun r _ => ⟨trivial, trivial, fun _ _ => trivial⟩) rfl h
    · exact fun he hw => (others_write hw).trans he
    · exact fun he _ hnew => (others_insert fun t ht => (hnew t ht).1).trans he
    · exact fun _ _ => trivial
  · exact others_write h
  · obtain ⟨ha, rfl⟩ := Rpc.actionCancel_ok h
    -- the cascade goes through tasks of the user only
    have own := @Table.cancelled_subset (fun i => ∀ t ∈ T.rows, t.id = i → t.createUid = uid)
      T.rows.length (T.rows.filter (·.createUid = uid)) ids
      (fun t ht p _ _ _ u hu hid => by
        obtain ⟨ht, huid⟩ := List.mem_filter.1 ht
        obtain rfl := Table.eq_of_id hu ht hid
        exact of_decide_eq_true huid)
      fun i hi t ht hid => (ha t ht (hid ▸ hi)).1
    exact others_updateAll fun t ht hid => ⟨own t.id hid t ht rfl, own t.id hid t ht rfl⟩
  · obtain ⟨ha, hf⟩ := Rpc.actionRetry_ok h
    refine (foldlM_keeps (P := fun T₁ => T₁.others uid = T.others uid ∧
      ∀ t ∈ T₁.rows, t.id ∈ ids → t.createUid = uid) ?_ ⟨rfl, checkAccess_ok ha⟩ hf).1
    rintro id hid T₁ T₂ ⟨he, ho⟩ h
    have hm := others_modify (fun t t' ht => by rw [(actionRetry_ok ht).2]) ho hid h
    exact ⟨hm.1.trans he, hm.2⟩

theorem children_others {id : TaskId} (hl : T.Lawful) (hp : T.get id = some t)
    (hu : t.createUid ≠ uid) :
    T.children id = select keyLE (fun t => t.parentId = some id) (T.others uid) := by
  unfold Table.children Table.others select
  rw [List.filter_filter]
  refine congrArg _ (List.filter_congr fun c hc => ?_)
  by_cases hpar : c.parentId = some id
  · obtain ⟨u, hg, huid⟩ := hl.parents c hc id hpar
    obtain rfl := Option.some.inj (hp.symm.trans hg)
    have : c.createUid ≠ uid := huid ▸ hu
    simp [hpar, this]
  · simp [hpar]

theorem get_others {id : TaskId} (he : T'.others uid = T.others uid) (hp : T.get id = some t)
    (hu : t.createUid ≠ uid) : T'.get id = some t := by
  obtain ⟨hm, rfl⟩ := Table.get_eq_some_iff.1 hp
  have ht : t ∈ T'.others uid := by
    rw [he]
    exact List.mem_filter.2 ⟨hm, by simpa using hu⟩
  exact Table.mem_iff_get.1 (List.mem_of_mem_filter ht)

end Others

/-- What a check leaves of the task, and the hooks that it has called. -/
def outcome (id : TaskId) (x : Except Exc (Table × List HookCall)) :
    Except Exc (Option Task × List HookCall) := x.map fun r => (r.1.get id, r.2)

/-- What `_check_waiting_parent` makes of the task. -/
def decision (E : Env) (hooks : Hooks) (id : TaskId) (T : Table) :
    Except Exc (Option Task × List HookCall) := outcome id (checkWaitingParent E hooks id T)

/-! ## What the check reads -/

section Check

variable {E : Env} {p : Task} {id : TaskId} {T T' : Table}

/-- Of two tables, the check of task `id` goes on alike. -/
structure Alike (id : TaskId) (T T' : Table) : Prop where
  get : T'.get id = T.get id
  active : (T.get id).map Task.state = some .waiting →
    (T'.children id).any (·.state ∈ activeStates) = (T.children id).any (·.state ∈ activeStates)

/-- Both fail with one error, or both go through. -/
def BothOk {ε α : Type} (R : α → α → Prop) (x y : Except ε α) : Prop :=
  (∃ e, x = .error e ∧ y = .error e) ∨ ∃ a b, x = .ok a ∧ y = .ok b ∧ R a b

theorem modify_alike {f : Task → Except TaskError Task} (hp : T.get id = some p)
    (hp' : T'.get id = some p) (hf : ∀ t, f p = .ok t → t.state ≠ .waiting) :
    BothOk (Alike id) (T.modify id f) (T'.modify id f) := by
  unfold Table.modify
  simp only [hp, hp']
  cases h : f p with
  | error e => exact .inl ⟨e, rfl, rfl⟩
  | ok t =>
    refine .inr ⟨_, _, rfl, rfl, ?_, fun hw => ?_⟩
    · rw [Table.get_update_self hp, Table.get_update_self hp']
    · rw [Table.get_update_self hp] at hw
      exact absurd (Option.some.inj hw) (hf t h)

theorem actionCancel_alike {sees : Task → Bool} {now : ℕ} (hp : T.get id = some p)
    (hp' : T'.get id = some p) :
    BothOk (Alike id) (T.actionCancel sees now id) (T'.actionCancel sees now id) := by
  unfold Table.actionCancel
  simp only [hp, hp']
  cases checkTransition .cancelled p with
  | error e => exact .inl ⟨e, rfl, rfl⟩
  | ok u =>
    have hg : ∀ {T : Table}, T.get id = some p →
        (T.updateAll (Table.cancelled T.rows.length (T.rows.filter sees) [id]) fun t =>
          { t with state := .cancelled, dateCompleted := some now }).get id =
        some { p with id := id, state := .cancelled, dateCompleted := some now } := by
      intro T hp
      rw [Table.get_updateAll, hp, Option.map_some, if_pos (Table.mem_cancelled (by simp))]
    refine .inr ⟨_, _, rfl, rfl, ?_, fun hw => ?_⟩
    · rw [hg hp, hg hp']
    · rw [hg hp] at hw
      cases hw

theorem apply_alike {sees : Task → Bool} {now : ℕ} (m : ParentMove) (hp : T.get id = some p)
    (hp' : T'.get id = some p) :
    BothOk (Alike id) (m.apply sees now id T) (m.apply sees now id T') := by
  cases m with
  | done result =>
    exact modify_alike hp hp' fun t ht => by rw [(checked_ok ht).2]; nofun
  | fail error =>
    exact modify_alike hp hp' fun t ht => by rw [(checked_ok ht).2]; nofun
  | cancel => exact actionCancel_alike hp hp'

theorem any_children_insert (T : Table) (new : List Task) (id : TaskId) :
    ((T.insert new).children id).any (·.state ∈ activeStates) =
      ((T.children id).any (·.state ∈ activeStates) ||
        new.any fun t => t.parentId = some id ∧ t.state ∈ activeStates) := by
  rw [Bool.eq_iff_iff]
  simp only [List.any_eq_true, Bool.or_eq_true, Table.mem_children, Table.mem_insert,
    decide_eq_true_eq]
  constructor
  · rintro ⟨t, ⟨ht | ⟨q, hq, rfl⟩, hpar⟩, ha⟩
    · exact .inl ⟨t, ⟨ht, hpar⟩, ha⟩
    · exact .inr ⟨q.1, List.fst_mem_of_mem_zipIdx hq, hpar, ha⟩
  · rintro (⟨t, ⟨ht, hpar⟩, ha⟩ | ⟨t, ht, hpar, ha⟩)
    · exact ⟨t, ⟨.inl ht, hpar⟩, ha⟩
    · obtain ⟨i, hi, rfl⟩ := List.getElem_of_mem ht
      exact ⟨{ new[i] with id := T.nextId + i },
        ⟨.inr ⟨(new[i], i), by simp [List.mk_mem_zipIdx_iff_getElem?, hi], rfl⟩, hpar⟩, ha⟩

theorem createChildren_alike {specs : List TaskSpec} (hp : T.get id = some p)
    (hp' : T'.get id = some p) (hc : T'.children id = T.children id) :
    BothOk (fun T₁ T₁' => T₁.get id = some p ∧ T₁'.get id = some p ∧ Alike id T₁ T₁')
      (createChildren E p specs T) (createChildren E p specs T') := by
  unfold createChildren
  cases specs.find? (·.typeCode ∉ E.activeTypes) with
  | some spec => exact .inl ⟨_, rfl, rfl⟩
  | none =>
    refine .inr ⟨_, _, rfl, rfl, Table.get_insert hp, Table.get_insert hp', ?_, fun _ => ?_⟩
    · rw [Table.get_insert hp, Table.get_insert hp']
    · rw [any_children_insert, any_children_insert, hc]

theorem effects_alike {h : HookRun} (hp : T.get p.id = some p) (hp' : T'.get p.id = some p)
    (hc : T'.children p.id = T.children p.id) :
    BothOk (Alike p.id) (h.effects E p T) (h.effects E p T') := by
  unfold HookRun.effects
  have hspawn := @createChildren_alike E p p.id T T' h.spawns hp hp' hc
  rcases hspawn with ⟨e, he, he'⟩ | ⟨T₁, T₁', h1, h1', hg, hg', hal⟩
  · rw [he, he']
    exact .inl ⟨e, rfl, rfl⟩
  · rw [h1, h1']
    cases h.move with
    | none => exact .inr ⟨T₁, T₁', rfl, rfl, hal⟩
    | some m => exact apply_alike m hg hg'

theorem runTaskTypeHook_alike {h : HookRun} (hp : T.get p.id = some p)
    (hp' : T'.get p.id = some p) (hc : T'.children p.id = T.children p.id) :
    (runTaskTypeHook E h p T').2 = (runTaskTypeHook E h p T).2 ∧
      Alike p.id (runTaskTypeHook E h p T).1 (runTaskTypeHook E h p T').1 := by
  have hal : Alike p.id T T' := ⟨hp'.trans hp.symm, fun _ => by rw [hc]⟩
  unfold runTaskTypeHook
  split_ifs
  · exact ⟨rfl, hal⟩
  · rcases effects_alike (E := E) (h := h) hp hp' hc with ⟨e, he, he'⟩ | ⟨T₁, T₁', h1, h1', hal₁⟩
    · rw [he, he']
      cases e
      exact ⟨rfl, hal⟩
    · rw [h1, h1']
      cases h.outcome with
      | error exc => exact ⟨rfl, hal⟩
      | ok v => exact ⟨rfl, hal₁⟩

theorem outcome_ok {calls : List HookCall} (hg : T'.get id = T.get id) :
    outcome id (.ok (T', calls)) = outcome id (.ok (T, calls)) := by
  simp only [outcome, Except.map, hg]

theorem outcome_modify {f : Task → Except TaskError Task} {calls : List HookCall}
    (hg : T'.get id = T.get id) :
    outcome id (match T'.modify id f with
      | .ok T₁ => .ok (T₁, calls)
      | .error (.validationError e) => .error (.other e)) =
    outcome id (match T.modify id f with
      | .ok T₁ => .ok (T₁, calls)
      | .error (.validationError e) => .error (.other e)) := by
  unfold Table.modify
  rw [hg]
  cases ht : T.get id with
  | none => simp only [outcome, Except.map, hg, ht]
  | some t =>
    simp only
    cases f t with
    | error e => cases e; rfl
    | ok t' =>
      simp only [outcome, Except.map, Table.get_update_self ht,
        Table.get_update_self (hg.trans ht)]

theorem failParent_alike {hooks : Hooks} {cause : FailureCause} {msg : String}
    (hp : T.get p.id = some p) (hp' : T'.get p.id = some p)
    (hc : T'.children p.id = T.children p.id) :
    outcome p.id (failParent E hooks cause msg p T') =
      outcome p.id (failParent E hooks cause msg p T) :=
  outcome_modify (runTaskTypeHook_alike hp hp' hc).2.get

theorem outcome_after {x y : Except Exc (Table × List HookCall)} {calls : List HookCall}
    (h : outcome id x = outcome id y) : outcome id (x.map fun r => (r.1, calls ++ r.2)) =
      outcome id (y.map fun r => (r.1, calls ++ r.2)) := by
  have key : ∀ x : Except Exc (Table × List HookCall),
      outcome id (x.map fun r => (r.1, calls ++ r.2)) =
        (outcome id x).map fun r => (r.1, calls ++ r.2) := by
    intro x
    cases x <;> rfl
  rw [key, key, h]

theorem completeParent_alike {hooks : Hooks} (hp : T.get p.id = some p)
    (hp' : T'.get p.id = some p) (hc : T'.children p.id = T.children p.id) :
    outcome p.id (completeParent E hooks p T') = outcome p.id (completeParent E hooks p T) := by
  obtain ⟨hr, hal⟩ :=
    runTaskTypeHook_alike (E := E) (h := hooks.onAllChildrenDone p.id) hp hp' hc
  unfold completeParent
  generalize runTaskTypeHook E (hooks.onAllChildrenDone p.id) p T' = r' at hr hal ⊢
  generalize runTaskTypeHook E (hooks.onAllChildrenDone p.id) p T = r at hr hal ⊢
  obtain ⟨T₁, x⟩ := r
  obtain ⟨T₁', x'⟩ := r'
  dsimp only at hr hal
  subst hr
  cases x' with
  | error exc =>
    cases exc with
    | transientError => rfl
    | retryTask after => exact outcome_ok (hp'.trans hp.symm)
    | other text => exact outcome_after (failParent_alike hp hp' hc)
  | ok v =>
    dsimp only
    rw [hal.get]
    by_cases hw : (T₁.get p.id).map Task.state = some .waiting
    · rw [if_neg (not_not.2 hw), if_neg (not_not.2 hw), hal.active hw]
      split_ifs
      · exact outcome_ok hal.get
      · exact outcome_modify hal.get
    · rw [if_pos hw, if_pos hw]
      exact outcome_ok hal.get

/-- **What the check reads.** The task itself and its children decide what the check makes of it. -/
theorem decision_congr {hooks : Hooks} (hg : T'.get id = T.get id)
    (hc : T'.children id = T.children id) : decision E hooks id T' = decision E hooks id T := by
  unfold decision checkWaitingParent
  rw [hg, hc]
  cases hp : T.get id with
  | none => exact outcome_ok hg
  | some p =>
    obtain rfl : p.id = id := (Table.get_eq_some_iff.1 hp).2
    dsimp only
    split_ifs
    · exact outcome_ok hg
    · exact outcome_modify hg
    · exact outcome_ok hg
    · exact failParent_alike hp (hg.trans hp) hc
    · exact outcome_ok hg
    · exact completeParent_alike hp (hg.trans hp) hc

end Check

/-! ## Runs -/

/-- **Protected fields.** In every run whose calls forge nothing, every task is where the state
machine can bring it and has a parent of the same user, and no call of a user changes what
`_check_waiting_parent` makes of a task of another user. -/
theorem protected_fields_kept {T₀ T : Table} {es : List QueueEv} (h : T₀.Lawful)
    (hp : Path Table.step (fun T ev => T.inOrder ev = true) T₀ es T) : T.Lawful ∧
      ∀ E uid ctx c T', T.inOrder (.rpc E uid ctx c) = true →
        T.step (.rpc E uid ctx c) = some T' →
        ∀ id t, T.get id = some t → t.createUid ≠ uid → T'.get id = some t ∧
          ∀ E' hooks, decision E' hooks id T' = decision E' hooks id T := by
  have hl : T.Lawful := hp.inv (fun _ _ _ hl hok hs => Table.Lawful.step hl hok hs) h
  refine ⟨hl, fun E uid ctx c T' hok hs id t ht hu => ?_⟩
  have hl' : T'.Lawful := hl.step hok hs
  have he : T'.others uid = T.others uid := by
    obtain rfl := Option.some.inj hs
    rcases commit_cases T (c.run E uid ctx T) with he | ⟨T₁, hrun, -, he⟩
    · rw [he]
    · rw [he]
      exact UserCall.others hrun
  have hg : T'.get id = some t := get_others he ht hu
  refine ⟨hg, fun E' hooks => decision_congr (hg.trans ht.symm) ?_⟩
  rw [children_others hl' hg hu, children_others hl ht hu, he]

def noTasks : Table := ⟨[], List.nodup_nil⟩

theorem noTasks_lawful : noTasks.Lawful where
  fields _ ht := absurd ht List.not_mem_nil
  parents _ ht := absurd ht List.not_mem_nil

def officeEnv : Env := ⟨[("report", {}), ("part", {})], ["report", "part"], 100, []⟩

/-- User 2 enqueues a report, which spawns a part and waits; the part is done. -/
def reportRun : List QueueEv := [
  .rpc officeEnv 2 {} (.createTask { typeCode := "report" }),
  .worker officeEnv [.row 1 (.assign 4 7) rfl],
  .worker officeEnv [.row 1 (.start 100) rfl],
  .worker officeEnv [.createChildren 1 [{ typeCode := "part" }], .row 1 .waitChildren rfl],
  .worker officeEnv [.row 2 (.assign 4 8) rfl],
  .worker officeEnv [.row 2 (.start 100) rfl],
  .worker officeEnv [.row 2 (.done 8 100 none) rfl]]

def reportWaits : Table :=
  reached Table.step (fun T ev => T.inOrder ev = true) noTasks reportRun

/-- User 3 enqueues a task and one nested below it, at a priority that he gives in the context. -/
def ownCall : UserCall := .create [({ name := some "part", typeCode := some "part" },
  some (.create { name := some "piece", typeCode := some "part" } .nil .nil))]

def ownContext : Context := { defaults := { priority := some 1 } }

/-- The report is going to be done all the same. -/
theorem reportWaits_kept : ∃ T',
    reportWaits.step (.rpc officeEnv 3 ownContext ownCall) = some T' ∧
    T'.rows.map (fun t => (t.priority, t.parentId)) =
      [(5, none), (5, some 1), (1, none), (5, some 3)] ∧ reportWaits.Lawful ∧
    decision officeEnv quietHooks 1 T' = decision officeEnv quietHooks 1 reportWaits := by
  have hp : Path Table.step (fun T ev => T.inOrder ev = true) noTasks reportRun reportWaits :=
    path_reached (by decide +kernel)
  have hs : reportWaits.step (.rpc officeEnv 3 ownContext ownCall) = some _ := rfl
  have hg : reportWaits.get 1 = some _ := rfl
  obtain ⟨hl, hkept⟩ := protected_fields_kept noTasks_lawful hp
  exact ⟨_, hs, by decide +kernel, hl,
    (hkept officeEnv 3 ownContext ownCall _ rfl hs 1 _ hg (by decide)).2 officeEnv quietHooks⟩

/-- User 3 creates a task that has failed, as a child of the report. -/
def forgedCall : UserCall := .create [({ name := some "part", typeCode := some "part"
                                         state := some .failed, parentId := some (some 1) }, none)]

/-- A batch of parts, which the context gives the same state and parent. -/
def forgedContext : Context :=
  { defaults := { state := some .failed, parentId := some (some 1) } }

/-- The forged task is in a state that no life brings it to and has a parent of another user, and
the report, which was going to be done, is going to fail. The same is done by a call of
`create_tasks` in a context. -/
theorem forged_child_fails_parent : ∃ es T,
    Path Table.step anyStep noTasks es reportWaits ∧
    reportWaits.step (.rpc officeEnv 3 {} forgedCall) = some T ∧
    reportWaits.step (.rpc officeEnv 3 forgedContext (.createTasks (some "part") [none] []
      { typeCode := "part" })) = some T ∧
    (∃ t ∈ T.rows, ¬ Reachable t.protectedFields ∧ t.createUid = 3 ∧ t.parentId = some 1 ∧
      (T.get 1).map Task.createUid = some 2) ∧
    (decision officeEnv quietHooks 1 reportWaits).map (fun r => r.1.map Task.state) =
      .ok (some .done) ∧
    (decision officeEnv quietHooks 1 T).map (fun r => r.1.map Task.state) = .ok (some .failed) := by
  have hp : Path Table.step anyStep noTasks reportRun reportWaits :=
    (path_reached (by decide +kernel)).imp fun _ _ _ => trivial
  have hs : reportWaits.step (.rpc officeEnv 3 {} forgedCall) = some _ := rfl
  refine ⟨reportRun, _, hp, hs, by decide +kernel, ?_, by decide +kernel, by decide +kernel⟩
  have hg : (reportWaits.commit (forgedCall.run officeEnv 3 {} reportWaits)).get 3 = some _ := rfl
  exact ⟨_, (Table.get_eq_some_iff.1 hg).1, fun h => h.started (by decide) rfl, rfl, rfl, rfl⟩

end GenericTaskQueue
