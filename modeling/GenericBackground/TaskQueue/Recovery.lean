import GenericBackground.Lib.Batch
import GenericBackground.TaskQueue.Waiting

/-!
# The tasks of dead workers

`_recover_dead_worker_tasks`: a sweep takes the first ten tasks in flight whose workers are dead, in
the order of the model, and recovers each as a lost execution in a savepoint. A task whose recovery
raises is rolled back and keeps its place. So the sweeps reach every other task exactly if fewer
than ten such tasks stand before it (`recovery_converges_iff`).
-/

namespace GenericTaskQueue

open Query

/-! ## Workers -/

inductive WorkerState where
  | active
  | stuck
  | dead
  deriving DecidableEq, Repr

/-- A row of `generic.task.queue.worker`. -/
structure Worker where
  id : WorkerId
  state : WorkerState := .active
  lastHeartbeat : Option ℕ := none
  deriving DecidableEq, Repr

def ofDeadWorker (W : List Worker) (t : Task) : Bool :=
  W.any fun w => t.workerId = some w.id ∧ w.state = .dead

/-! ## Recovery -/

/-- Budget and policy let a lost execution run again. -/
def retriableLoss (t : Task) : Bool :=
  t.retryPolicy ≠ .noRetry ∧ t.retryCount < t.maxRetries

theorem retriableLoss_iff {t : Task} :
    retriableLoss t = true ↔ t.retryPolicy ≠ .noRetry ∧ t.retryCount < t.maxRetries :=
  decide_eq_true_iff

theorem running_or_stuck {s : TaskState} (hs : s ∈ inFlightStates) (hna : s ≠ .assigned) :
    s = .running ∨ s = .stuck := by
  revert s; decide

/-- `_handle_lost_execution` on the table, with its hook `on_failure`. -/
def recoverTask (E : Env) (hooks : Hooks) (error : String) (runner : Option RunnerId)
    (worker : Option WorkerId) (id : TaskId) (T : Table) : Except TaskError Table :=
  match T.get id with
  | none => .ok T
  | some t =>
    if finalizable inFlightStates runner worker t then
      if t.state = .assigned ∨ retriableLoss t then
        T.modify id (handleLostExecution E.reg E.now error)
      else
        let t' := { t with runnerId := none }
        (runTaskTypeHook E (hooks.onFailure id) t' (T.update id fun _ => t')).1.modify id
          (actionFail E.now (some error) none)
    else .ok T

/-- One task of `_recover_lost_executions`, in its savepoint. The recovery of the tasks in `raises`
raises whatever it finds: a database error in a hook, a notification that cannot be sent. -/
def recoverOne (E : Env) (hooks : Hooks) (raises : TaskId → Bool) (error : String) (T : Table)
    (id : TaskId) : Table :=
  if raises id then T
  else match recoverTask E hooks error ((T.get id).bind Task.runnerId)
      ((T.get id).bind Task.workerId) id T with
    | .ok T' => T'
    | .error _ => T

def recoverLostExecutions (E : Env) (hooks : Hooks) (raises : TaskId → Bool) (error : String)
    (ids : List TaskId) (T : Table) : Table :=
  ids.foldl (recoverOne E hooks raises error) T

def recoveryBatchSize : ℕ := 10

def lost (W : List Worker) (t : Task) : Bool := ofDeadWorker W t && t.state ∈ inFlightStates

def lostTasks (W : List Worker) (T : Table) : List Task := select keyLE (lost W) T.rows

def recoverDeadWorkerTasks (E : Env) (hooks : Hooks) (raises : TaskId → Bool) (W : List Worker)
    (T : Table) : Table :=
  recoverLostExecutions E hooks raises "Worker died during execution"
    (((lostTasks W T).take recoveryBatchSize).map Task.id) T

instance (E : Env) (h : HookRun) (p : Task) : Decidable (h.movesParent E p) :=
  inferInstanceAs (Decidable (_ ∧ _ ∧ _))

/-- The recovery of the task raises: it is among those that always do, or its `on_failure` hook has
called a final action on it, and `action_fail` then finds it in a state it does not accept. -/
def poisoned (E : Env) (hooks : Hooks) (raises : TaskId → Bool) (t : Task) : Bool :=
  raises t.id || (t.state ≠ .assigned && !retriableLoss t && (hooks.onFailure t.id).movesParent E t)

/-! ## What the hook leaves -/

def Recovered (id : TaskId) (T : Table) : Prop :=
  ∃ t, T.get id = some t ∧ (t.state = .pending ∨ t.state = .failed)

theorem hook_still {E : Env} {h : HookRun} {p : Task} {T : Table}
    (hm : ¬ h.movesParent E p) :
    ∃ new : List Task, (∀ t ∈ new, t.state = .pending) ∧
      (runTaskTypeHook E h p T).1.rows = T.rows ++ new := by
  have same : (runTaskTypeHook E h p T).1 = T → ∃ new : List Task,
      (∀ t ∈ new, t.state = .pending) ∧ (runTaskTypeHook E h p T).1.rows = T.rows ++ new :=
    fun h => ⟨[], by simp, by simp [h]⟩
  by_cases hreg : (E.reg.lookup p.typeCode).isNone
  · exact same (by rw [runTaskTypeHook_unregistered hreg])
  unfold runTaskTypeHook at same ⊢
  rw [if_neg hreg] at same ⊢
  rcases hc : createChildren E p h.spawns T with e | T₁
  · have he : h.effects E p T = .error e := by unfold HookRun.effects; rw [hc]; rfl
    obtain ⟨msg⟩ := e
    exact same (by rw [he])
  · rcases ho : h.outcome with exc | v
    · -- the savepoint is rolled back
      rw [ho] at same
      refine same ?_
      rcases h.effects E p T with ⟨msg⟩ | T' <;> rfl
    · have hspawn : h.spawns.find? (·.typeCode ∉ E.activeTypes) = none := by
        unfold createChildren at hc
        split at hc
        · cases hc
        · assumption
      have hmove : h.move = none := by
        by_contra hne
        refine hm ⟨by simpa using hreg, ?_, hne⟩
        unfold HookRun.raises
        rw [if_neg hreg, hspawn, ho]
      have he : h.effects E p T = .ok T₁ := by unfold HookRun.effects; rw [hc, hmove]; rfl
      unfold createChildren at hc
      rw [hspawn] at hc
      obtain rfl := Except.ok.inj hc
      refine ⟨_, ?_, by rw [he]; rfl⟩
      intro t ht
      obtain ⟨q, hq, rfl⟩ := List.mem_map.1 ht
      obtain ⟨r, -, hr⟩ := List.mem_map.1 (List.fst_mem_of_mem_zipIdx hq)
      show q.1.state = _
      rw [← hr]
      rfl

theorem ParentMove.ends {sees : Task → Bool} {now : ℕ} {T T' : Table} {p : Task} {m : ParentMove}
    (hp : T.get p.id = some p) (h : m.apply sees now p.id T = .ok T') :
    ∃ p', T'.get p.id = some p' ∧ p'.state ∈ terminalStates := by
  cases m with
  | done v =>
    obtain ⟨t', hf, rfl⟩ := Table.modify_ok hp h
    obtain ⟨-, rfl⟩ := checked_ok hf
    exact ⟨_, Table.get_update_self hp, by simp [terminalStates]⟩
  | fail e =>
    obtain ⟨t', hf, rfl⟩ := Table.modify_ok hp h
    obtain ⟨-, rfl⟩ := checked_ok hf
    exact ⟨_, Table.get_update_self hp, by simp [terminalStates]⟩
  | cancel =>
    obtain ⟨-, rfl⟩ := Table.actionCancel_ok hp h
    have hg := T.get_updateAll (Table.cancelled T.rows.length (T.rows.filter sees) [p.id])
      (fun t => { t with state := .cancelled, dateCompleted := some now }) p.id
    rw [hp, Option.map_some, if_pos (Table.mem_cancelled (by simp))] at hg
    exact ⟨_, hg, by simp [terminalStates]⟩

theorem ParentMove.apply_ok {T : Table} {p : Task} (m : ParentMove) (sees : Task → Bool) (now : ℕ)
    (hp : T.get p.id = some p) (hs : p.state = .running ∨ p.state = .stuck) :
    ∃ T', m.apply sees now p.id T = .ok T' := by
  have hal : ∀ st, st = .done ∨ st = .failed ∨ st = .cancelled →
      st ∈ allowedTransitions p.state := by
    rintro st (rfl | rfl | rfl) <;> rcases hs with hs | hs <;> rw [hs] <;> decide
  cases m with
  | done v => exact ⟨_, Table.modify_eq hp (checked_of_mem (hal _ (.inl rfl)))⟩
  | fail e => exact ⟨_, Table.modify_eq hp (checked_of_mem (hal _ (.inr (.inl rfl))))⟩
  | cancel =>
    show ∃ T', T.actionCancel sees now p.id = .ok T'
    unfold Table.actionCancel
    simp only [hp]
    rw [checkTransition_ok.2 (hal _ (.inr (.inr rfl)))]
    exact ⟨_, rfl⟩

theorem hook_ends {E : Env} {h : HookRun} {p : Task} {T : Table} (hp : T.get p.id = some p)
    (hs : p.state = .running ∨ p.state = .stuck) (hm : h.movesParent E p) :
    ∃ p', (runTaskTypeHook E h p T).1.get p.id = some p' ∧ p'.state ∈ terminalStates := by
  obtain ⟨hreg, hr, hm⟩ := hm
  obtain ⟨m, hm⟩ := Option.ne_none_iff_exists'.1 hm
  have hreg' : ¬ (E.reg.lookup p.typeCode).isNone := by simpa using hreg
  unfold HookRun.raises at hr
  rw [if_neg hreg'] at hr
  split at hr
  · cases hr
  · cases hr
  next v hspawn ho =>
  obtain ⟨T₁, hc⟩ : ∃ T₁, createChildren E p h.spawns T = .ok T₁ := by
    unfold createChildren; rw [hspawn]; exact ⟨_, rfl⟩
  have hp₁ : T₁.get p.id = some p :=
    Table.mem_iff_get.1 (createChildren_old hc (Table.mem_iff_get.2 hp))
  obtain ⟨T', hT'⟩ := m.apply_ok (E.sees p.createUid) E.now hp₁ hs
  have he : h.effects E p T = .ok T' := by
    unfold HookRun.effects
    rw [hc, hm]
    exact hT'
  unfold runTaskTypeHook
  rw [if_neg hreg', he, ho]
  exact ParentMove.ends hp₁ hT'

/-! ## One recovery -/

/-- What a sweep leaves: the lost tasks in `ids` are recovered, and every other row is kept. -/
structure Sweeps (W : List Worker) (ids : List TaskId) (T T' : Table) : Prop where
  lost : T'.rows.filter (lost W) = (T.rows.filter (lost W)).filter (·.id ∉ ids)
  recovered : ∀ i ∈ ids, Recovered i T'
  others : ∀ t ∈ T.rows, t.id ∉ ids → t ∈ T'.rows

theorem Sweeps.refl (W : List Worker) (T : Table) : Sweeps W [] T T :=
  ⟨by simp, by simp, fun _ ht _ => ht⟩

theorem Sweeps.trans {W : List Worker} {is js : List TaskId} {T₁ T₂ T₃ : Table}
    (h : Sweeps W is T₁ T₂) (h' : Sweeps W js T₂ T₃) (hd : ∀ i ∈ is, i ∉ js) :
    Sweeps W (is ++ js) T₁ T₃ where
  lost := by
    rw [h'.lost, h.lost, List.filter_filter]
    refine List.filter_congr fun t _ => ?_
    simp [Bool.and_comm]
  recovered i hi := by
    rcases List.mem_append.1 hi with hi | hi
    · obtain ⟨t, ht, hs⟩ := h.recovered i hi
      obtain ⟨hm, rfl⟩ := Table.get_eq_some_iff.1 ht
      exact ⟨t, Table.get_eq_some_iff.2 ⟨h'.others t hm (hd _ hi), rfl⟩, hs⟩
    · exact h'.recovered i hi
  others t ht hi := by
    rw [List.mem_append, not_or] at hi
    exact h'.others t (h.others t ht hi.1) hi.2

theorem recovered_not_lost {W : List Worker} {t : Task}
    (h : t.state = .pending ∨ t.state = .failed) : lost W t = false := by
  unfold lost
  rcases h with h | h <;> simp [h, inFlightStates]

/-- Rows that are rewritten so that none of id `i` has `p`, and new rows without `p`. -/
theorem filter_rewrite {p : Task → Bool} {i : TaskId} {g : Task → Task} {l new : List Task}
    (hkeep : ∀ t ∈ l, t.id ≠ i → g t = t) (hgone : ∀ t ∈ l, t.id = i → p (g t) = false)
    (hnew : ∀ t ∈ new, p t = false) :
    (l.map g ++ new).filter p = (l.filter p).filter (·.id ∉ [i]) := by
  have hnil : new.filter p = [] := List.filter_eq_nil_iff.2 fun t ht => by simp [hnew t ht]
  rw [List.filter_append, hnil, List.append_nil]
  induction l with
  | nil => rfl
  | cons t l ih =>
    have ih := ih (fun u hu => hkeep u (List.mem_cons_of_mem _ hu))
      (fun u hu => hgone u (List.mem_cons_of_mem _ hu))
    rw [List.map_cons, List.filter_cons, ih, List.filter_cons]
    by_cases ht : t.id = i
    · rw [hgone t List.mem_cons_self ht]
      cases p t <;> simp [ht]
    · rw [hkeep t List.mem_cons_self ht]
      cases p t <;> simp [ht]

/-- A lost task is written, then recovered; new rows are pending. -/
theorem sweeps_update {W : List Worker} {T T₂ : Table} {p q : Task} {new : List Task}
    {f : Task → Task} (hp : T.get p.id = some p) (hq : q.state = .pending ∨ q.state = .failed)
    (hnew : ∀ t ∈ new, t.state = .pending) (h₂ : T₂.rows = (T.update p.id f).rows ++ new) :
    Sweeps W [p.id] T (T₂.update p.id fun _ => q) := by
  have hrows : (T₂.update p.id fun _ => q).rows =
      (T.rows.map fun t => if t.id = p.id then { q with id := p.id } else t) ++
        new.map fun t => if t.id = p.id then { q with id := p.id } else t := by
    show T₂.rows.map _ = _
    rw [h₂, List.map_append]
    show (T.rows.map _).map _ ++ _ = _
    rw [List.map_map]
    congr 1
    · refine List.map_congr_left fun t _ => ?_
      by_cases ht : t.id = p.id <;> simp [ht]
    · refine List.map_congr_left fun t _ => ?_
      by_cases ht : t.id = p.id <;> simp [ht]
  have hq' : lost W { q with id := p.id } = false := recovered_not_lost hq
  refine ⟨?_, ?_, fun t ht hi => ?_⟩
  · rw [hrows]
    refine filter_rewrite (fun t _ ht => by simp [ht]) (fun t _ ht => by simp [ht, hq']) ?_
    intro t ht
    obtain ⟨u, hu, rfl⟩ := List.mem_map.1 ht
    split_ifs
    · exact hq'
    · exact recovered_not_lost (.inl (hnew u hu))
  · intro i hi
    obtain rfl := List.mem_singleton.1 hi
    have hm : { f p with id := p.id } ∈ T₂.rows := by
      rw [h₂]
      exact List.mem_append_left _ (Table.get_eq_some_iff.1 (Table.get_update_self hp)).1
    have hg : T₂.get p.id = some { f p with id := p.id } := Table.mem_iff_get.1 hm
    exact ⟨_, Table.get_update_self hg, hq⟩
  · unfold Table.update at h₂ ⊢
    rw [Table.mem_updateAll_of_not_mem hi, h₂]
    exact List.mem_append_left _ ((Table.mem_updateAll_of_not_mem hi).2 ht)

theorem update_self (T : Table) {p : Task} (hp : T.get p.id = some p) :
    T.update p.id (fun _ => p) = T := by
  obtain ⟨hm, -⟩ := Table.get_eq_some_iff.1 hp
  have h : (T.update p.id fun _ => p).rows = T.rows := by
    refine (List.map_congr_left fun t ht => ?_).trans (List.map_id _)
    by_cases hid : t.id = p.id
    · obtain rfl := Table.eq_of_id ht hm hid
      simp
    · simp [hid]
  cases T
  simpa [Table.update, Table.updateAll] using h

section Recover

variable {E : Env} {hooks : Hooks} {raises : TaskId → Bool} {error : String} {W : List Worker}
  {T : Table} {p : Task}

theorem lost_inFlight (hl : lost W p = true) : p.state ∈ inFlightStates := by
  simp only [lost, Bool.and_eq_true, decide_eq_true_eq] at hl
  exact hl.2

theorem recoverTask_eq (hp : T.get p.id = some p) (hl : lost W p = true) :
    recoverTask E hooks error p.runnerId p.workerId p.id T =
      if p.state = .assigned ∨ retriableLoss p then
        T.modify p.id (handleLostExecution E.reg E.now error)
      else (runTaskTypeHook E (hooks.onFailure p.id) { p with runnerId := none }
        (T.update p.id fun _ => { p with runnerId := none })).1.modify p.id
          (actionFail E.now (some error) none) := by
  have hsel : finalizable inFlightStates p.runnerId p.workerId p = true :=
    finalizable_iff.2 ⟨lost_inFlight hl, fun _ h => h, fun _ h => h⟩
  unfold recoverTask
  simp only [hp, hsel, if_true]

theorem recoverTask_retried (hp : T.get p.id = some p) (hl : lost W p = true)
    (h : p.state = .assigned ∨ retriableLoss p = true) :
    ∃ T', recoverTask E hooks error p.runnerId p.workerId p.id T = .ok T' ∧
      Sweeps W [p.id] T T' := by
  rw [recoverTask_eq hp hl, if_pos h]
  obtain ⟨q, hq, hqs⟩ : ∃ q, handleLostExecution E.reg E.now error p = .ok q ∧
      q.state = .pending := by
    unfold handleLostExecution
    by_cases has : p.state = .assigned
    · rw [if_pos has]
      exact ⟨_, checked_of_mem (by rw [has]; decide), rfl⟩
    · have hret := h.resolve_left has
      rw [if_neg has, if_pos (retriableLoss_iff.1 hret)]
      exact ⟨_, rfl, rfl⟩
  have hrows : T.rows = (T.update p.id fun _ => p).rows ++ [] := by
    rw [List.append_nil, update_self T hp]
  exact ⟨_, Table.modify_eq hp hq, sweeps_update hp (.inl hqs) (by simp) hrows⟩

theorem recoverTask_failed (hp : T.get p.id = some p) (hl : lost W p = true)
    (h : ¬ (p.state = .assigned ∨ retriableLoss p = true))
    (hm : ¬ (hooks.onFailure p.id).movesParent E p) :
    ∃ T', recoverTask E hooks error p.runnerId p.workerId p.id T = .ok T' ∧
      Sweeps W [p.id] T T' := by
  rw [recoverTask_eq hp hl, if_neg h]
  have hs := running_or_stuck (lost_inFlight hl) fun has => h (.inl has)
  let p₁ : Task := { p with runnerId := none }
  have hp₁ : (T.update p.id fun _ => p₁).get p₁.id = some p₁ := Table.get_update_self hp
  obtain ⟨new, hnew, hrows⟩ := hook_still (p := p₁) (T := T.update p.id fun _ => p₁) hm
  have hmem : p₁ ∈ (runTaskTypeHook E (hooks.onFailure p.id) p₁
      (T.update p.id fun _ => p₁)).1.rows := by
    rw [hrows]
    exact List.mem_append_left _ (Table.mem_iff_get.2 hp₁)
  obtain ⟨q, hq, hqs⟩ : ∃ q, actionFail E.now (some error) none p₁ = .ok q ∧
      q.state = .failed := by
    refine ⟨_, checked_of_mem ?_, rfl⟩
    show .failed ∈ allowedTransitions p.state
    rcases hs with hs | hs <;> rw [hs] <;> decide
  have hget := Table.mem_iff_get.1 hmem
  exact ⟨_, Table.modify_eq hget hq, sweeps_update hp (.inr hqs) hnew hrows⟩

theorem recoverTask_moved (hp : T.get p.id = some p) (hl : lost W p = true)
    (h : ¬ (p.state = .assigned ∨ retriableLoss p = true))
    (hm : (hooks.onFailure p.id).movesParent E p) :
    ∃ e, recoverTask E hooks error p.runnerId p.workerId p.id T = .error e := by
  rw [recoverTask_eq hp hl, if_neg h]
  have hs := running_or_stuck (lost_inFlight hl) fun has => h (.inl has)
  let p₁ : Task := { p with runnerId := none }
  have hp₁ : (T.update p.id fun _ => p₁).get p₁.id = some p₁ := Table.get_update_self hp
  obtain ⟨q, hq, hqs⟩ := hook_ends (h := hooks.onFailure p.id) hp₁ hs hm
  obtain ⟨e, he⟩ : ∃ e, actionFail E.now (some error) none q = .error e := by
    refine checked_error ?_
    revert hqs
    cases q.state <;> decide
  refine ⟨e, ?_⟩
  unfold Table.modify
  rw [show Table.get _ p.id = _ from hq]
  simp only [he]
  rfl

theorem recoverOne_eq (hp : T.get p.id = some p) : recoverOne E hooks raises error T p.id =
    if raises p.id then T
    else match recoverTask E hooks error p.runnerId p.workerId p.id T with
      | .ok T' => T'
      | .error _ => T := by
  unfold recoverOne
  simp only [hp, Option.bind_some]

/-- **One recovery.** A lost task whose recovery raises stays as it is, with the table. -/
theorem recoverOne_poisoned (hp : T.get p.id = some p) (hl : lost W p = true)
    (hb : poisoned E hooks raises p = true) : recoverOne E hooks raises error T p.id = T := by
  rw [recoverOne_eq hp]
  by_cases hr : raises p.id = true
  · rw [if_pos hr]
  · simp only [poisoned, hr, Bool.false_or, Bool.and_eq_true, decide_eq_true_eq, ne_eq,
      Bool.not_eq_true'] at hb
    obtain ⟨⟨has, hret⟩, hm⟩ := hb
    obtain ⟨e, he⟩ : ∃ e, recoverTask E hooks error p.runnerId p.workerId p.id T = .error e :=
      recoverTask_moved hp hl (by simp [has, hret]) hm
    rw [if_neg hr, he]

/-- **One recovery.** Any other lost task is recovered, and the other rows are kept. -/
theorem recoverOne_sweeps (hp : T.get p.id = some p) (hl : lost W p = true)
    (hb : poisoned E hooks raises p = false) :
    Sweeps W [p.id] T (recoverOne E hooks raises error T p.id) := by
  rw [recoverOne_eq hp]
  obtain ⟨hr, hm⟩ := Bool.or_eq_false_iff.1 hb
  rw [if_neg (by simp [hr])]
  have key : ∃ T', recoverTask E hooks error p.runnerId p.workerId p.id T = .ok T' ∧
      Sweeps W [p.id] T T' := by
    by_cases h : p.state = .assigned ∨ retriableLoss p = true
    · exact recoverTask_retried hp hl h
    · refine recoverTask_failed hp hl h ?_
      rw [not_or] at h
      simpa [h.1, h.2] using hm
  obtain ⟨T', hT', hsw⟩ := key
  rw [hT']
  exact hsw

/-! ## One sweep -/

theorem recoverLostExecutions_sweeps {l : List Task} (hd : (l.map Task.id).Nodup)
    (hl : ∀ t ∈ l, t ∈ T.rows ∧ lost W t = true) :
    Sweeps W ((l.filter fun t => !poisoned E hooks raises t).map Task.id) T
      (recoverLostExecutions E hooks raises error (l.map Task.id) T) := by
  induction l generalizing T with
  | nil => exact .refl W T
  | cons p l ih =>
    obtain ⟨hp, hd⟩ := List.nodup_cons.1 hd
    obtain ⟨hmem, hlost⟩ := hl p List.mem_cons_self
    have hget := Table.mem_iff_get.1 hmem
    have hrest := fun t ht => hl t (List.mem_cons_of_mem p ht)
    show Sweeps W _ T (recoverLostExecutions E hooks raises error (l.map Task.id)
      (recoverOne E hooks raises error T p.id))
    by_cases hb : poisoned E hooks raises p = true
    · rw [List.filter_cons, if_neg (by simp [hb]), recoverOne_poisoned hget hlost hb]
      exact ih hd hrest
    · have hb : poisoned E hooks raises p = false := by simpa using hb
      have hone : Sweeps W [p.id] T (recoverOne E hooks raises error T p.id) :=
        recoverOne_sweeps hget hlost hb
      have hids : ∀ t ∈ l, t.id ≠ p.id := fun t ht h => hp (h ▸ List.mem_map_of_mem ht)
      rw [List.filter_cons, if_pos (by simp [hb])]
      refine hone.trans (ih hd fun t ht => ⟨hone.others t (hrest t ht).1 ?_, (hrest t ht).2⟩) ?_
      · simpa using hids t ht
      · simp only [List.mem_singleton, forall_eq, List.mem_map, not_exists, not_and]
        exact fun t ht => hids t (List.mem_of_mem_filter ht)

theorem mem_lostTasks {t : Task} : t ∈ lostTasks W T ↔ t ∈ T.rows ∧ lost W t = true := mem_select

theorem lostTasks_nodup : ((lostTasks W T).map Task.id).Nodup :=
  (((List.perm_insertionSort keyLE _).map Task.id).nodup_iff).2
    (T.nodup.sublist (List.filter_sublist.map Task.id))

/-- **One sweep.** -/
theorem recoverDeadWorkerTasks_sweeps (E : Env) (hooks : Hooks) (raises : TaskId → Bool)
    (W : List Worker) (T : Table) :
    Sweeps W ((((lostTasks W T).take recoveryBatchSize).filter
      fun t => !poisoned E hooks raises t).map Task.id) T
        (recoverDeadWorkerTasks E hooks raises W T) := by
  refine recoverLostExecutions_sweeps ?_ fun t ht => mem_lostTasks.1 (List.mem_of_mem_take ht)
  exact lostTasks_nodup.sublist ((List.take_sublist _ _).map Task.id)

theorem lostTasks_sweep : lostTasks W (recoverDeadWorkerTasks E hooks raises W T) =
    Batch.batch (fun t => !poisoned E hooks raises t) recoveryBatchSize (lostTasks W T) := by
  have hsw := recoverDeadWorkerTasks_sweeps E hooks raises W T
  rw [Batch.batch_eq_filter lostTasks_nodup]
  unfold lostTasks at hsw ⊢
  rw [filter_select]
  exact congrArg (List.insertionSort keyLE) hsw.lost

/-- A lost task stays in the table until it is recovered, and a recovered one stays so. -/
theorem recoverDeadWorkerTasks_task {t : Task} (h : t ∈ lostTasks W T ∨ Recovered t.id T) :
    t ∈ lostTasks W (recoverDeadWorkerTasks E hooks raises W T) ∨
      Recovered t.id (recoverDeadWorkerTasks E hooks raises W T) := by
  have hsw := recoverDeadWorkerTasks_sweeps E hooks raises W T
  rcases h with h | ⟨u, hu, hs⟩
  · by_cases hid : t.id ∈ (((lostTasks W T).take recoveryBatchSize).filter
        fun t => !poisoned E hooks raises t).map Task.id
    · exact .inr (hsw.recovered _ hid)
    · obtain ⟨hm, hl⟩ := mem_lostTasks.1 h
      exact .inl (mem_lostTasks.2 ⟨hsw.others t hm hid, hl⟩)
  · refine .inr ⟨u, ?_, hs⟩
    obtain ⟨hm, hid⟩ := Table.get_eq_some_iff.1 hu
    refine Table.get_eq_some_iff.2 ⟨hsw.others u hm fun hi => ?_, hid⟩
    -- a batch has only lost tasks
    obtain ⟨v, hv, hvu⟩ := List.mem_map.1 hi
    obtain ⟨hv, hl⟩ := mem_lostTasks.1 (List.mem_of_mem_take (List.mem_of_mem_filter hv))
    rw [Table.eq_of_id hv hm hvu, recovered_not_lost hs] at hl
    cases hl

end Recover

/-! ## All sweeps -/

/-- The table after `n` sweeps, at the given times. -/
def sweeps (E : Env) (hooks : Hooks) (raises : TaskId → Bool) (W : List Worker) (clock : ℕ → ℕ)
    (T : Table) : ℕ → Table
  | 0 => T
  | n + 1 => recoverDeadWorkerTasks { E with now := clock n } hooks raises W
      (sweeps E hooks raises W clock T n)

section Sweeps

variable {E : Env} {hooks : Hooks} {raises : TaskId → Bool} {W : List Worker} {T : Table}

theorem lostTasks_sweeps (clock : ℕ → ℕ) (n : ℕ) : lostTasks W (sweeps E hooks raises W clock T n) =
    (Batch.batch (fun t => !poisoned E hooks raises t) recoveryBatchSize)^[n]
      (lostTasks W T) := by
  induction n with
  | zero => rfl
  | succ n ih =>
    rw [Function.iterate_succ_apply', ← ih]
    exact lostTasks_sweep

theorem sweeps_task {t : Task} (clock : ℕ → ℕ) (h : t ∈ lostTasks W T) (n : ℕ) :
    t ∈ lostTasks W (sweeps E hooks raises W clock T n) ∨
      Recovered t.id (sweeps E hooks raises W clock T n) := by
  induction n with
  | zero => exact .inl h
  | succ n ih => exact recoverDeadWorkerTasks_task ih

/-- **Convergence.** After as many sweeps as there are lost tasks, every one of them whose recovery
does not raise is pending or failed, exactly if fewer than ten whose recovery raises come before
each. -/
theorem recovery_converges_iff (E : Env) (hooks : Hooks) (raises : TaskId → Bool)
    (W : List Worker) (clock : ℕ → ℕ) (T : Table) :
    (∀ t ∈ T.rows, lost W t = true → poisoned E hooks raises t = false →
      Recovered t.id (sweeps E hooks raises W clock T (lostTasks W T).length)) ↔
    ∀ before t after, lostTasks W T = before ++ t :: after → poisoned E hooks raises t = false →
      before.countP (poisoned E hooks raises) < recoveryBatchSize := by
  have hserved : Batch.Served (fun t => !poisoned E hooks raises t) recoveryBatchSize
      (lostTasks W T) ↔ _ := Batch.served_iff
  simp only [Bool.not_not, Bool.not_eq_true'] at hserved
  rw [← hserved, ← Batch.iterate_batch_iff (Nat.le_refl _), ← lostTasks_sweeps clock]
  simp only [Bool.not_eq_false']
  constructor
  · intro h t ht
    by_contra hb
    have hin : t ∈ lostTasks W T := by
      rw [lostTasks_sweeps] at ht
      exact Batch.mem_of_mem_iterate ht
    obtain ⟨hm, hl⟩ := mem_lostTasks.1 hin
    obtain ⟨hm', hl'⟩ := mem_lostTasks.1 ht
    -- it is recovered, and still lost
    obtain ⟨u, hu, hs⟩ := h t hm hl (by simpa using hb)
    obtain ⟨hmu, hid⟩ := Table.get_eq_some_iff.1 hu
    rw [Table.eq_of_id hm' hmu hid.symm, recovered_not_lost hs] at hl'
    cases hl'
  · intro h t hm hl hb
    rcases sweeps_task clock (mem_lostTasks.2 ⟨hm, hl⟩) (lostTasks W T).length with
      ht | hs
    · rw [h t ht] at hb
      cases hb
    · exact hs

end Sweeps

def lostExport (id : TaskId) : Task where
  id := id
  name := "export"
  typeCode := "export"
  state := .running
  workerId := some 1
  runnerId := some id
  retryPolicy := .retryAny
  maxRetries := 3
  dateCreated := id
  createUid := 2

def elevenLost : Table where
  rows := (List.range 11).map lostExport
  nodup := by decide

/-- The recovery of the ten older tasks raises, so no sweep comes to the eleventh. -/
theorem ten_poisoned_starve : ¬ ∀ t ∈ elevenLost.rows,
    lost [{ id := 1, state := .dead }] t = true →
    poisoned ⟨[], ["export"], 0, []⟩ ⟨fun _ => {}, fun _ => {}⟩ (· < 10) t = false →
    Recovered t.id (sweeps ⟨[], ["export"], 0, []⟩ ⟨fun _ => {}, fun _ => {}⟩ (· < 10)
      [{ id := 1, state := .dead }] (fun n => 100 + 60 * n) elevenLost
      (lostTasks [{ id := 1, state := .dead }] elevenLost).length) := by
  intro h
  obtain ⟨t, ht, hs⟩ := h (lostExport 10) (by decide) (by decide) (by decide)
  have hrow : (sweeps ⟨[], ["export"], 0, []⟩ ⟨fun _ => {}, fun _ => {}⟩ (· < 10)
      [{ id := 1, state := .dead }] (fun n => 100 + 60 * n) elevenLost
      (lostTasks [{ id := 1, state := .dead }] elevenLost).length).get 10 =
        some (lostExport 10) := by decide +kernel
  rw [show t = lostExport 10 from Option.some.inj (ht.symm.trans hrow)] at hs
  revert hs
  decide

end GenericTaskQueue
