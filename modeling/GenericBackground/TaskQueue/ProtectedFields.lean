import GenericBackground.Lib.Traverse
import GenericBackground.TaskQueue.Rpc
import GenericBackground.TaskQueue.StateMachine

/-!
# Protected fields

The fields of a task that its life cycle writes and its owner does not. `Machine` is the life cycle
on these fields alone; a table is `Lawful` if it has brought every task from that of a fresh one to
where it is, and every parent is a task of the same user.

Workers and the calls of users keep a table lawful, as long as `create`, `create_task` and
`create_tasks` are not used to forge these fields or a parent: in the values of the call, in the
defaults of its context, or in those of the tasks nested below (`Table.inOrder`,
`Table.Lawful.step`). A transaction of a worker is taken to issue any of its statements, in any
number and order.
-/

namespace GenericTaskQueue

open Query RowStore Lts

/-! ## The state machine -/

structure Protected where
  state : TaskState := .pending
  workerId : Option WorkerId := none
  runnerId : Option RunnerId := none
  retryCount : ℤ := 0
  taskResult : Option Json := none
  progress : ℤ := 0
  phase : ℕ := 0
  phaseData : List (String × Json) := []
  dateStarted : Option ℕ := none
  dateCompleted : Option ℕ := none
  deriving DecidableEq, Repr

def Task.protectedFields (t : Task) : Protected :=
  ⟨t.state, t.workerId, t.runnerId, t.retryCount, t.taskResult, t.progress, t.phase, t.phaseData,
    t.dateStarted, t.dateCompleted⟩

/-- The values of a client, with those of a fresh task for the fields that are not given. -/
def ClientVals.protectedFields (v : ClientVals) : Protected where
  state := v.state.getD .pending
  workerId := v.workerId.getD none
  runnerId := v.runnerId.getD none
  retryCount := v.retryCount.getD 0
  taskResult := v.taskResult.getD none
  progress := v.progress.getD 0
  phase := v.phase.getD 0
  phaseData := v.phaseData.getD []
  dateStarted := v.dateStarted.getD none
  dateCompleted := v.dateCompleted.getD none

/-- One move in the life of a task. Progress is written in any state: the ticks of an execution may
come late. -/
inductive Machine (p : Protected) : Protected → Prop
  | assign (worker : WorkerId) (runner : RunnerId) (h : p.state = .pending) :
      Machine p { p with state := .assigned, workerId := some worker, runnerId := some runner }
  | start (now : ℕ) (h : p.state = .assigned) :
      Machine p { p with state := .running, dateStarted := some now, progress := 0 }
  | stuck (h : p.state = .running) : Machine p { p with state := .stuck }
  | wait (h : p.state = .running) : Machine p { p with state := .waiting }
  | done (now : ℕ) (result : Option Json) (h : p.state ∈ [.running, .stuck, .waiting]) :
      Machine p { p with
        state := .done, taskResult := result, dateCompleted := some now, progress := 100 }
  | fail (now : ℕ) (h : p.state ∈ [.running, .stuck, .waiting]) :
      Machine p { p with state := .failed, dateCompleted := some now }
  | abandon (now : ℕ) (h : p.state ∈ [.running, .stuck]) :
      Machine p { p with state := .failed, runnerId := none, dateCompleted := some now }
  | requeue (h : p.state = .assigned) :
      Machine p { p with state := .pending, workerId := none, runnerId := none }
  | retry (h : p.state = .failed) :
      Machine p { p with state := .pending, workerId := none, runnerId := none, progress := 0 }
  | autoRetry (h : p.state ∈ [.running, .stuck, .failed]) :
      Machine p { p with
        state := .pending, workerId := none, runnerId := none, progress := 0
        retryCount := p.retryCount + 1 }
  | cancel (now : ℕ) (h : p.state ≠ .done ∧ p.state ≠ .cancelled) :
      Machine p { p with state := .cancelled, dateCompleted := some now }
  | letGo (h : p.state = .waiting) : Machine p { p with workerId := none }
  | tick (value : ℤ) (h : 0 ≤ value ∧ value ≤ 100) : Machine p { p with progress := value }
  | store (data : List (String × Json)) : Machine p { p with phaseData := data }
  | enterPhase (phase : ℕ) : Machine p { p with phase := phase }

/-- The machine has brought the fields of a fresh task there. -/
def Reachable : Protected → Prop := Relation.ReflTransGen Machine {}

theorem Reachable.started {p : Protected} (h : Reachable p)
    (hs : p.state ∈ [.running, .stuck, .waiting, .done, .failed]) : p.dateStarted ≠ none := by
  induction h with
  | refl => exact absurd hs (by decide)
  | @tail p q _ hm ih =>
    cases hm with
    | assign worker runner h => simp at hs
    | start now h => nofun
    | stuck h => exact ih (by rw [h]; decide)
    | wait h => exact ih (by rw [h]; decide)
    | done now result h => exact ih (List.mem_append_left [TaskState.done, .failed] h)
    | fail now h => exact ih (List.mem_append_left [TaskState.done, .failed] h)
    | abandon now h => exact ih (List.mem_append_left [TaskState.waiting, .done, .failed] h)
    | requeue h => simp at hs
    | retry h => simp at hs
    | autoRetry h => simp at hs
    | cancel now h => simp at hs
    | letGo h => exact ih hs
    | tick value h => exact ih hs
    | store data => exact ih hs
    | enterPhase phase => exact ih hs

/-- What a lawful statement makes of a task: its owner and its parent stay. -/
structure Task.Evolves (t t' : Task) : Prop where
  createUid : t'.createUid = t.createUid
  parentId : t'.parentId = t.parentId
  fields : Relation.ReflTransGen Machine t.protectedFields t'.protectedFields

theorem Task.Evolves.of_eq {t t' : Task} (hu : t'.createUid = t.createUid)
    (hp : t'.parentId = t.parentId) (hf : t'.protectedFields = t.protectedFields) :
    t.Evolves t' := ⟨hu, hp, hf ▸ .refl⟩

theorem Task.Evolves.move {t t' : Task} (h : Machine t.protectedFields t'.protectedFields)
    (hu : t'.createUid = t.createUid) (hp : t'.parentId = t.parentId) : t.Evolves t' :=
  ⟨hu, hp, .single h⟩

/-! ## Statements on a row -/

variable {reg : Registry} {t t' : Task} {now : ℕ}

theorem actionAutoRetry_evolves {eta : Option ℕ} (h : t.state ∈ [.running, .stuck, .failed]) :
    t.Evolves (actionAutoRetry eta t) := .move (.autoRetry h) rfl rfl

theorem actionFail_evolves {error : Option String} {data : Option Json}
    (h : actionFail now error data t = .ok t') : t.Evolves t' := by
  obtain ⟨hs, rfl⟩ := checked_ok h
  refine .move (.fail now ?_) rfl rfl
  show t.state ∈ _
  revert hs
  cases t.state <;> decide

theorem actionDone_evolves {result : Option Json} (h : actionDone now result t = .ok t') :
    t.Evolves t' := by
  obtain ⟨hs, rfl⟩ := checked_ok h
  refine .move (.done now result ?_) rfl rfl
  show t.state ∈ _
  revert hs
  cases t.state <;> decide

theorem cancelled_evolves (hs : .cancelled ∈ allowedTransitions t.state) :
    t.Evolves { t with state := .cancelled, dateCompleted := some now } := by
  refine .move (.cancel now ?_) rfl rfl
  show t.state ≠ .done ∧ t.state ≠ .cancelled
  revert hs
  cases t.state <;> decide

theorem actionRetry_evolves {eta : Option ℕ} (h : actionRetry eta t = .ok t') : t.Evolves t' := by
  obtain ⟨hf, rfl⟩ := actionRetry_ok h
  exact .move (.retry hf) rfl rfl

theorem handleFailure_evolves {exc : Exc} {tb : String} {read : Task} (hs : t.state ∈ finalStates)
    (h : handleFailure reg now exc tb read t = .ok t') : t.Evolves t' := by
  rcases handleFailure_cases h with ⟨-, _, rfl⟩ | ⟨-, h⟩
  · apply actionAutoRetry_evolves
    revert hs
    cases t.state <;> decide
  · exact actionFail_evolves h

theorem handleLostExecution_evolves {error : String} (hs : t.state ∈ inFlightStates)
    (h : handleLostExecution reg now error t = .ok t') : t.Evolves t' := by
  rcases handleLostExecution_cases h with ⟨ha, h⟩ | ⟨ha, -, rfl⟩ | ⟨ha, -, h⟩
  · obtain ⟨-, rfl⟩ := checked_ok h
    exact .move (.requeue ha) rfl rfl
  · apply actionAutoRetry_evolves
    revert hs ha
    cases t.state <;> decide
  · obtain ⟨-, rfl⟩ := checked_ok h
    refine .move (.abandon now ?_) rfl rfl
    show t.state ∈ _
    revert hs ha
    cases t.state <;> decide

/-- The statements that the queue itself issues; of those of task code, `store_phase_data` and the
write of `_start_wave`. -/
def RowAct.ofWorker : RowAct → Bool
  | .user (.storePhaseData _) => true
  | .user (.enterPhase _ _) => true
  | .user _ => false
  | _ => true

/-- Every statement of a worker goes by the machine. -/
theorem RowAct.evolves {a : RowAct} (ha : a.ofWorker = true) (hs : a.selects (some t) = true)
    (h : a.run reg (some t) = .ok (some t')) : t.Evolves t' := by
  change a.onTask reg t = .ok (some t') at h
  cases a with
  | user u =>
    cases u with
    | storePhaseData vals =>
      obtain rfl := Option.some.inj (Except.ok.inj h)
      exact .move (.store _) rfl rfl
    | enterPhase phase childIds =>
      obtain rfl := Option.some.inj (Except.ok.inj h)
      exact ⟨rfl, rfl, .tail (.single (.store _)) (.enterPhase phase)⟩
    | _ => cases ha
  | assign worker uuid =>
    refine of_map_some (fun u hu => ?_) h
    obtain ⟨hp, rfl⟩ := claimRow_eq hu
    exact .move (.assign worker uuid hp) rfl rfl
  | start now =>
    obtain ⟨hst, rfl⟩ := checked_some h
    exact .move (.start now (of_allowed_running hst)) rfl rfl
  | stuck =>
    obtain ⟨hst, rfl⟩ := checked_some h
    exact .move (.stuck (of_allowed_stuck hst)) rfl rfl
  | waitChildren =>
    obtain ⟨hst, rfl⟩ := checked_some h
    refine .move (.wait ?_) rfl rfl
    show t.state = .running
    revert hst
    cases t.state <;> decide
  | progress value =>
    obtain rfl := Option.some.inj (Except.ok.inj h)
    refine .move (.tick _ ?_) rfl rfl
    show 0 ≤ max 0 (min 100 value) ∧ max 0 (min 100 value) ≤ 100
    omega
  | done runner now result => exact of_map_some (fun u hu => actionDone_evolves hu) h
  | failure runner now exc traceback read =>
    exact of_map_some (fun u hu => handleFailure_evolves (finalizable_iff.1 hs).1 hu) h
  | lostExecution runner worker now error =>
    exact of_map_some (fun u hu => handleLostExecution_evolves (finalizable_iff.1 hs).1 hu) h
  | autoRetry now =>
    obtain rfl := Option.some.inj (Except.ok.inj h)
    exact actionAutoRetry_evolves (by rw [autoRetryable_failed hs]; decide)
  | unown =>
    obtain rfl := Option.some.inj (Except.ok.inj h)
    exact .move (.letGo (of_decide_eq_true hs)) rfl rfl
  | lockWaiting =>
    obtain rfl := Option.some.inj (Except.ok.inj h)
    exact .of_eq rfl rfl rfl
  | move now m =>
    cases m with
    | done result => exact of_map_some (fun u hu => actionDone_evolves hu) h
    | fail error => exact of_map_some (fun u hu => actionFail_evolves hu) h
    | cancel =>
      obtain ⟨hst, rfl⟩ := checked_some h
      exact cancelled_evolves hst

/-- Without other task code, a transaction of the queue issues no other statements. -/
theorem Tx.stmts_ofWorker {a : Tx} {σ : Snapshot TaskId Task} {L : List TaskId} {k : TaskId}
    {act : RowAct} (hb : ∀ p ∈ a.body, (RowAct.user p.2).ofWorker = true)
    (hm : (k, act) ∈ a.stmts reg σ L) : act.ofWorker = true := by
  cases act with
  | user u =>
    obtain ⟨v, hv, rfl⟩ := user_stmts hm
    have hv := hb _ hv
    cases v with
    | create v => cases hv
    | _ => exact hv
  | _ => rfl

/-! ## The system -/

/-- A statement in a transaction of a worker: one on a row, `create_children`, the `action_cancel`
of a hook that runs as some user, or the write of `phase`. -/
inductive WorkerStmt where
  | row (id : TaskId) (a : RowAct) (h : a.ofWorker = true)
  | createChildren (parent : TaskId) (specs : List TaskSpec)
  | actionCancel (uid : UserId) (id : TaskId)
  | enterPhase (id : TaskId) (phase : ℕ)

def WorkerStmt.run (E : Env) (T : Table) : WorkerStmt → Except TaskError Table
  | .row id a _ =>
    if a.selects (T.get id) then
      (a.run E.reg (T.get id)).map fun o => T.update id fun t => o.getD t
    else .ok T
  | .createChildren parent specs => match T.get parent with
    | none => .ok T
    | some p => GenericTaskQueue.createChildren E p specs T
  | .actionCancel uid id => T.actionCancel (E.sees uid) E.now id
  | .enterPhase id phase => .ok (T.update id fun t => { t with phase := phase })

/-- A user calls an operation, with a context, or a worker runs a transaction. -/
inductive QueueEv where
  | rpc (E : Env) (uid : UserId) (ctx : Context) (c : UserCall)
  | worker (E : Env) (stmts : List WorkerStmt)

def Commands.vals : Commands → List ClientVals
  | .nil => []
  | .create vals childIds rest => vals :: (childIds.vals ++ rest.vals)
  | .update _ _ rest => rest.vals

/-- The values that `create` has for each task once the context is read, and the commands for its
`child_ids`. -/
def Context.fill (ctx : Context) (valsList : List (ClientVals × Option Commands)) :
    List (ClientVals × Commands) :=
  valsList.map fun r => (r.1.orDefaults ctx.defaults, r.2.getD ctx.defaultChildIds)

/-- What a call has for the tasks that it creates. -/
def UserCall.creates (E : Env) (ctx : Context) : UserCall → List (ClientVals × Commands)
  | .create valsList => ctx.fill valsList
  | .createTask c => ctx.fill [(c.clientVals E, none)]
  | .createTasks typeCode paramsList _ common =>
    ctx.fill (Rpc.specVals E (typeCode.getD "") paramsList common)
  | .write _ _ => []
  | .actionCancel _ => []
  | .actionRetry _ _ => []

namespace Table

def step (T : Table) : QueueEv → Option Table
  | .rpc E uid ctx c => some (T.commit (c.run E uid ctx T))
  | .worker E stmts => some (T.commit (stmts.foldlM (WorkerStmt.run E) T))

def ownParent (T : Table) (uid : UserId) (parent : Option TaskId) : Bool :=
  parent.all fun p => (T.get p).all (·.createUid = uid)

/-- A call that forges nothing: every protected field of a task that it creates, nested ones
included, has the value of a fresh task, and a parent is a task of the caller. -/
def inOrder (T : Table) : QueueEv → Bool
  | .rpc E uid ctx c => (c.creates E ctx).all fun r => r.1.protectedFields = {} &&
      T.ownParent uid r.1.parentId.join && r.2.vals.all (·.protectedFields = {})
  | .worker _ _ => true

/-- Every task is where the machine can bring it, and every parent is a task of the same user. -/
structure Lawful (T : Table) : Prop where
  fields : ∀ t ∈ T.rows, Reachable t.protectedFields
  parents : ∀ t ∈ T.rows, ∀ p, t.parentId = some p →
    ∃ u, T.get p = some u ∧ u.createUid = t.createUid

end Table

/-! ## Lawful tables -/

section Lawful

variable {T T' : Table} {ids : List TaskId} {f : Task → Task} {uid : UserId} {E : Env} {t : Task}
  {ctx : Context}

theorem commit_cases {ε : Type} (T : Table) (r : Except ε Table) : T.commit r = T ∨
    ∃ T', r = .ok T' ∧ T'.constrained = true ∧ T.commit r = T' := by
  unfold Table.commit
  split
  · next T' =>
    split_ifs with h
    · exact .inr ⟨T', rfl, h, rfl⟩
    · exact .inl rfl
  · exact .inl rfl

theorem Table.Lawful.updateAll (hl : T.Lawful)
    (h : ∀ t ∈ T.rows, t.id ∈ ids → t.Evolves (f t)) : (T.updateAll ids f).Lawful := by
  have row : ∀ t ∈ T.rows, t.Evolves (if t.id ∈ ids then { f t with id := t.id } else t) := by
    intro t ht
    split_ifs with hid
    · exact ⟨(h t ht hid).createUid, (h t ht hid).parentId, (h t ht hid).fields⟩
    · exact .of_eq rfl rfl rfl
  constructor
  · intro t' ht'
    obtain ⟨t, ht, rfl⟩ := List.mem_map.1 ht'
    exact (hl.fields t ht).trans (row t ht).fields
  · intro t' ht' p hp
    obtain ⟨t, ht, rfl⟩ := List.mem_map.1 ht'
    rw [(row t ht).parentId] at hp
    obtain ⟨u, hu, huid⟩ := hl.parents t ht p hp
    obtain ⟨hmem, rfl⟩ := Table.get_eq_some_iff.1 hu
    refine ⟨_, by rw [Table.get_updateAll, hu, Option.map_some], ?_⟩
    rw [(row t ht).createUid, ← huid]
    exact (row u hmem).createUid

theorem Table.Lawful.update {id : TaskId} (hl : T.Lawful)
    (h : ∀ t, T.get id = some t → t.Evolves (f t)) : (T.update id f).Lawful :=
  hl.updateAll fun t ht hid => h t (Table.get_eq_some_iff.2 ⟨ht, by simpa using hid⟩)

theorem Table.Lawful.modify {id : TaskId} {g : Task → Except TaskError Task} (hl : T.Lawful)
    (hg : ∀ t t', g t = .ok t' → t.Evolves t') (h : T.modify id g = .ok T') : T'.Lawful := by
  cases ht : T.get id with
  | none =>
    unfold Table.modify at h
    rw [ht] at h
    exact Except.ok.inj h ▸ hl
  | some t =>
    obtain ⟨t', hf, rfl⟩ := Table.modify_ok ht h
    refine hl.update fun u hu => ?_
    obtain rfl := Option.some.inj (ht.symm.trans hu)
    exact hg t t' hf

theorem Table.Lawful.insert {new : List Task} (hl : T.Lawful)
    (hf : ∀ t ∈ new, t.protectedFields = {})
    (hp : ∀ t ∈ new, ∀ p, t.parentId = some p →
      ∃ u, (T.insert new).get p = some u ∧ u.createUid = t.createUid) : (T.insert new).Lawful := by
  constructor
  · intro t ht
    rcases Table.mem_insert.1 ht with ht | ⟨q, hq, rfl⟩
    · exact hl.fields t ht
    · have hfresh : q.1.protectedFields = {} := hf q.1 (List.fst_mem_of_mem_zipIdx hq)
      show Reachable q.1.protectedFields
      rw [hfresh]
      exact .refl
  · intro t ht p hpar
    rcases Table.mem_insert.1 ht with ht | ⟨q, hq, rfl⟩
    · obtain ⟨u, hu, huid⟩ := hl.parents t ht p hpar
      exact ⟨u, Table.get_insert hu, huid⟩
    · exact hp q.1 (List.fst_mem_of_mem_zipIdx hq) p hpar

theorem cancelled_allowed {fuel : ℕ} {rows : List Task} (hsub : ∀ t ∈ rows, t ∈ T.rows)
    (hids : ∀ t ∈ T.rows, t.id ∈ ids → .cancelled ∈ allowedTransitions t.state) :
    ∀ t ∈ T.rows, t.id ∈ Table.cancelled fuel rows ids →
      .cancelled ∈ allowedTransitions t.state := by
  have key := @Table.cancelled_subset
    (fun i => ∀ t ∈ T.rows, t.id = i → .cancelled ∈ allowedTransitions t.state) fuel rows ids
    (fun t ht p _ _ ha u hu hid => by
      obtain rfl := Table.eq_of_id hu (hsub t ht) hid
      revert ha
      cases u.state <;> decide)
    fun i hi t ht hid => hids t ht (hid ▸ hi)
  exact fun t ht hm => key t.id hm t ht rfl

/-! ## Workers -/

theorem actionCancel_lawful {sees : Task → Bool} {now : ℕ} {id : TaskId} (hl : T.Lawful)
    (h : T.actionCancel sees now id = .ok T') : T'.Lawful := by
  cases hg : T.get id with
  | none =>
    obtain rfl := Table.actionCancel_none hg h
    exact hl
  | some p =>
    obtain ⟨hp, rfl⟩ := Table.actionCancel_ok hg h
    refine hl.updateAll fun t ht hm => cancelled_evolves
      (cancelled_allowed (fun t ht => List.mem_of_mem_filter ht) (fun u hu hid => ?_) t ht hm)
    obtain rfl := List.mem_singleton.1 hid
    obtain rfl := Option.some.inj (hg.symm.trans (Table.mem_iff_get.1 hu))
    exact hp

theorem createChildren_lawful {p : Task} {specs : List TaskSpec} (hl : T.Lawful)
    (hp : T.get p.id = some p) (h : createChildren E p specs T = .ok T') : T'.Lawful := by
  unfold createChildren at h
  split at h
  · cases h
  · obtain rfl := Except.ok.inj h
    refine hl.insert (fun t ht => ?_) fun t ht q hq => ?_
    · obtain ⟨r, -, rfl⟩ := List.mem_map.1 ht
      rfl
    · obtain ⟨r, -, rfl⟩ := List.mem_map.1 ht
      obtain rfl := Option.some.inj hq
      exact ⟨p, Table.get_insert hp, rfl⟩

theorem WorkerStmt.lawful {a : WorkerStmt} (hl : T.Lawful) (h : a.run E T = .ok T') :
    T'.Lawful := by
  cases a with
  | row id a ha =>
    unfold WorkerStmt.run at h
    dsimp only at h
    split_ifs at h with hs
    · obtain ⟨o, ho, rfl⟩ := map_ok h
      refine hl.update fun t ht => ?_
      rw [ht] at hs ho
      cases o with
      | none => exact .of_eq rfl rfl rfl
      | some t' => exact RowAct.evolves ha hs ho
    · exact Except.ok.inj h ▸ hl
  | createChildren parent specs =>
    unfold WorkerStmt.run at h
    dsimp only at h
    split at h
    · exact Except.ok.inj h ▸ hl
    · next p hp =>
      obtain rfl := (Table.get_eq_some_iff.1 hp).2
      exact createChildren_lawful hl hp h
  | actionCancel uid id => exact actionCancel_lawful hl h
  | enterPhase id phase =>
    obtain rfl := Except.ok.inj h
    exact hl.update fun t _ => .move (.enterPhase phase) rfl rfl

theorem foldlM_keeps {α ε : Type} {P : Table → Prop} {g : Table → α → Except ε Table} :
    ∀ {l : List α} {T T' : Table}, (∀ a ∈ l, ∀ T T', P T → g T a = .ok T' → P T') →
      P T → l.foldlM g T = .ok T' → P T' := by
  intro l
  induction l with
  | nil =>
    intro T T' _ hP h
    exact Except.ok.inj h ▸ hP
  | cons a l ih =>
    intro T T' hg hP h
    rw [List.foldlM_cons] at h
    obtain ⟨T₁, h1, h2⟩ := bind_ok h
    exact ih (fun b hb => hg b (List.mem_cons_of_mem a hb)) (hg a List.mem_cons_self T T₁ hP h1) h2

/-! ## The calls of users -/

theorem checkAccess_ok (h : Rpc.checkAccess uid ids T = .ok ()) :
    ∀ t ∈ T.rows, t.id ∈ ids → t.createUid = uid := by
  unfold Rpc.checkAccess at h
  split_ifs at h with ha
  intro t ht hid
  have hg := List.all_eq_true.1 ha t.id hid
  rw [Table.mem_iff_get.1 ht] at hg
  simpa using hg

theorem not_given {v : ClientVals} (h : v.forbidden = []) {key : String} {b : Bool}
    (hm : (key, b) ∈ v.fields) (hk : key ∉ userWritableFields) : b = false := by
  by_contra hb
  have hmem : key ∈ (v.fields.filter Prod.snd).map Prod.fst :=
    List.mem_map.2 ⟨(key, b), List.mem_filter.2 ⟨hm, by simpa using hb⟩, rfl⟩
  have := List.filter_eq_nil_iff.1 h key hmem
  exact this (by simpa using hk)

theorem write_evolves {v : ClientVals} (h : v.forbidden = []) (t : Task) :
    t.Evolves (v.write t) := by
  have given : ∀ {α : Type} (o : Option α) (key : String), (key, o.isSome) ∈ v.fields →
      key ∉ userWritableFields → o = none := by
    intro α o key hm hk
    simpa using not_given h hm hk
  refine .of_eq rfl ?_ ?_
  · show v.parentId.getD t.parentId = t.parentId
    rw [given v.parentId "parent_id" (by simp [ClientVals.fields]) (by decide)]
    rfl
  · unfold Task.protectedFields ClientVals.write
    simp only [given v.state "state" (by simp [ClientVals.fields]) (by decide),
      given v.workerId "worker_id" (by simp [ClientVals.fields]) (by decide),
      given v.runnerId "runner_id" (by simp [ClientVals.fields]) (by decide),
      given v.retryCount "retry_count" (by simp [ClientVals.fields]) (by decide),
      given v.taskResult "task_result" (by simp [ClientVals.fields]) (by decide),
      given v.progress "progress" (by simp [ClientVals.fields]) (by decide),
      given v.phase "phase" (by simp [ClientVals.fields]) (by decide),
      given v.phaseData "phase_data" (by simp [ClientVals.fields]) (by decide),
      given v.dateStarted "date_started" (by simp [ClientVals.fields]) (by decide),
      given v.dateCompleted "date_completed" (by simp [ClientVals.fields]) (by decide),
      Option.getD_none]

theorem insert_lawful {new : List Task} (hl : T.Lawful)
    (hc : (T.insert new).constrained = true) (hu : ∀ t ∈ new, t.createUid = uid)
    (hf : ∀ t ∈ new, t.protectedFields = {})
    (ho : ∀ t ∈ new, T.ownParent uid t.parentId = true) : (T.insert new).Lawful := by
  refine hl.insert hf fun t ht p hp => ?_
  unfold Table.constrained at hc
  simp only [Bool.and_eq_true, List.all_eq_true] at hc
  obtain ⟨i, hi, rfl⟩ := List.getElem_of_mem ht
  have hrow : { new[i] with id := T.nextId + i } ∈ (T.insert new).rows :=
    Table.mem_insert.2 (.inr ⟨(new[i], i), by simp [List.mk_mem_zipIdx_iff_getElem?, hi], rfl⟩)
  have hfk := hc.2 _ hrow
  have hpar : ({ new[i] with id := T.nextId + i } : Task).parentId = some p := hp
  rw [hpar, Option.all_some] at hfk
  obtain ⟨u, hg⟩ := Option.isSome_iff_exists.1 hfk
  refine ⟨u, hg, ?_⟩
  rw [hu _ ht]
  obtain ⟨hm, rfl⟩ := Table.get_eq_some_iff.1 hg
  rcases Table.mem_insert.1 hm with hm | ⟨q, hq, rfl⟩
  · have hown := ho _ ht
    unfold Table.ownParent at hown
    rw [hp, Option.all_some, Table.mem_iff_get.1 hm] at hown
    simpa using hown
  · exact hu q.1 (List.fst_mem_of_mem_zipIdx hq)

/-! ## What a call creates -/

theorem ClientVals.create_ok {v d : ClientVals} (h : v.create E uid d = .ok t) :
    t.createUid = uid ∧ t.protectedFields = (v.orDefaults d).protectedFields ∧
      t.parentId = (v.orDefaults d).parentId.join := by
  obtain ⟨v', hres, h⟩ := bind_ok h
  dsimp only at h
  -- to resolve the type leaves the other fields alone
  obtain ⟨hf, hp⟩ : (v'.orDefaults d).protectedFields = (v.orDefaults d).protectedFields ∧
      (v'.orDefaults d).parentId = (v.orDefaults d).parentId := by
    unfold ClientVals.resolveType at hres
    split at hres
    · split_ifs at hres
      obtain rfl := Except.ok.inj hres
      exact ⟨rfl, rfl⟩
    · obtain rfl := Except.ok.inj hres
      exact ⟨rfl, rfl⟩
  split at h
  · obtain rfl := Except.ok.inj h
    refine ⟨rfl, hf, ?_⟩
    show (v'.orDefaults d).parentId.getD none = _
    rw [hp]
    cases (v.orDefaults d).parentId <;> rfl
  · cases h

theorem Commands.mem_creates {cmds : Commands} {c : ClientVals × Commands}
    (h : c ∈ cmds.creates) : c.1 ∈ cmds.vals ∧ c.2.vals ⊆ cmds.vals := by
  induction cmds with
  | nil => cases h
  | create vals childIds rest _ ih =>
    rcases List.mem_cons.1 h with rfl | h
    · exact ⟨List.mem_cons_self, fun v hv => List.mem_cons_of_mem _ (List.mem_append_left _ hv)⟩
    · obtain ⟨h1, h2⟩ := ih h
      exact ⟨List.mem_cons_of_mem _ (List.mem_append_right _ h1),
        fun v hv => List.mem_cons_of_mem _ (List.mem_append_right _ (h2 hv))⟩
  | update id vals rest ih => exact ih h

theorem Rpc.checked_ok (h : Rpc.checked T = .ok T') : T' = T ∧ T.constrained = true := by
  unfold Rpc.checked at h
  split_ifs at h with hc
  exact ⟨(Except.ok.inj h).symm, hc⟩

theorem Rpc.write_ok {v : ClientVals} (h : Rpc.write uid ids v T = .ok T') :
    v.forbidden = [] ∧ Rpc.checkAccess uid ids T = .ok () ∧ T' = T.updateAll ids v.write := by
  unfold Rpc.write at h
  split_ifs at h with hf
  obtain ⟨_, ha, rfl⟩ := map_ok h
  exact ⟨not_not.1 hf, ha, rfl⟩

section Creates

variable {P : Table → Prop} {Q : Table → Option TaskId → Prop} {F : Protected → Prop}

/-- **Rule for creating tasks.** What a `write` of the caller keeps, and an insert of rows of the
caller, with fields in `F` and parents in `Q`, is kept by a batch and all that is nested below it:
what is nested has a parent of the caller. -/
theorem Rpc.createBatch_keeps
    (hwrite : ∀ {T T' : Table} {id : TaskId} {v : ClientVals}, P T →
      Rpc.write uid [id] v T = .ok T' → P T')
    (hinsert : ∀ {T : Table} {new : List Task}, P T → (T.insert new).constrained = true →
      (∀ t ∈ new, t.createUid = uid ∧ F t.protectedFields ∧ Q T t.parentId) → P (T.insert new))
    (hown : ∀ {T : Table} {p : TaskId} {u : Task}, T.get p = some u → u.createUid = uid →
      Q T (some p)) :
    ∀ {fuel : ℕ} {d : ClientVals} {batch : List (ClientVals × Commands)} {T T' : Table},
      (∀ r ∈ batch, F (r.1.orDefaults d).protectedFields ∧ Q T (r.1.orDefaults d).parentId.join ∧
        ∀ v ∈ r.2.vals, F v.protectedFields) →
      P T → Rpc.createBatch E uid fuel d batch T = .ok T' → P T' := by
  intro fuel
  induction fuel with
  | zero =>
    intro d batch T T' _ hP h
    exact Except.ok.inj h ▸ hP
  | succ fuel ih =>
    intro d batch T T' hbatch hP h
    obtain ⟨new, hnew, h⟩ := bind_ok h
    obtain ⟨_, hchecked, h⟩ := bind_ok h
    obtain ⟨rfl, hc⟩ := Rpc.checked_ok hchecked
    obtain ⟨T₂, hupdates, h⟩ := bind_ok h
    have hrows : ∀ t ∈ new, t.createUid = uid ∧ F t.protectedFields ∧ Q T t.parentId := by
      intro t ht
      obtain ⟨r, hr, hrt⟩ := mem_mapM_ok hnew t ht
      obtain ⟨h1, h2, h3⟩ := ClientVals.create_ok hrt
      obtain ⟨hf, hq, -⟩ := hbatch r hr
      exact ⟨h1, h2 ▸ hf, h3 ▸ hq⟩
    -- the rows of the batch stay there, and their creator stays the caller
    have hafter : P T₂ ∧ ∀ i < new.length, ∃ u, T₂.get (T.nextId + i) = some u ∧
        u.createUid = uid := by
      refine foldlM_keeps (P := fun T₂ => P T₂ ∧ ∀ i < new.length, ∃ u,
        T₂.get (T.nextId + i) = some u ∧ u.createUid = uid) ?_ ⟨hinsert hP hc hrows, ?_⟩ hupdates
      · rintro u - T₁ T₂ ⟨hP, hget⟩ hw
        refine ⟨hwrite hP hw, fun i hi => ?_⟩
        obtain ⟨hforbidden, -, rfl⟩ := Rpc.write_ok hw
        obtain ⟨t, ht, hu⟩ := hget i hi
        refine ⟨_, by rw [Table.get_updateAll, ht, Option.map_some], ?_⟩
        split_ifs
        · exact (write_evolves hforbidden t).createUid.trans hu
        · exact hu
      · intro i hi
        have hmem : { new[i] with id := T.nextId + i } ∈ (T.insert new).rows :=
          Table.mem_insert.2 (.inr ⟨(new[i], i),
            by simp [List.mk_mem_zipIdx_iff_getElem?, hi], rfl⟩)
        exact ⟨_, Table.mem_iff_get.1 hmem, (hrows _ (List.getElem_mem hi)).1⟩
    refine ih (fun r hr => ?_) hafter.1 h
    obtain ⟨⟨r₀, i⟩, hi, hr⟩ := List.mem_flatMap.1 hr
    obtain ⟨c, hc, rfl⟩ := List.mem_map.1 hr
    obtain ⟨-, -, hnested⟩ := hbatch r₀ (List.fst_mem_of_mem_zipIdx hi)
    obtain ⟨hvals, hsub⟩ := Commands.mem_creates hc
    have hlen : i < new.length := by
      rw [← (Traverse.mapM_eq_ok_iff.1 hnew).length_eq]
      exact List.snd_lt_of_mem_zipIdx hi
    obtain ⟨u, hu, huid⟩ := hafter.2 i hlen
    rw [ClientVals.orDefaults_empty]
    exact ⟨hnested c.1 hvals, hown hu huid, fun v hv => hnested v (hsub hv)⟩

theorem Rpc.create_keeps {valsList : List (ClientVals × Option Commands)}
    (hwrite : ∀ {T T' : Table} {id : TaskId} {v : ClientVals}, P T →
      Rpc.write uid [id] v T = .ok T' → P T')
    (hinsert : ∀ {T : Table} {new : List Task}, P T → (T.insert new).constrained = true →
      (∀ t ∈ new, t.createUid = uid ∧ F t.protectedFields ∧ Q T t.parentId) → P (T.insert new))
    (hown : ∀ {T : Table} {p : TaskId} {u : Task}, T.get p = some u → u.createUid = uid →
      Q T (some p))
    (hfill : ∀ r ∈ ctx.fill valsList, F r.1.protectedFields ∧ Q T r.1.parentId.join ∧
      ∀ v ∈ r.2.vals, F v.protectedFields)
    (hP : P T) (h : Rpc.create E uid ctx valsList T = .ok T') : P T' := by
  refine Rpc.createBatch_keeps hwrite hinsert hown (fun r hr => ?_) hP h
  obtain ⟨q, hq, rfl⟩ := List.mem_map.1 hr
  exact hfill _ (List.mem_map_of_mem hq)

end Creates

theorem Rpc.createTask_ok {c : CreateArgs} (h : Rpc.createTask E uid ctx c T = .ok T') :
    T' = T ∨ Rpc.create E uid ctx [(c.clientVals E, none)] T = .ok T' := by
  unfold Rpc.createTask at h
  split at h
  · split_ifs at h
    exact .inl (Except.ok.inj h).symm
  · exact .inr h

theorem Rpc.createTasks_ok {code : Option TypeCode} {paramsList : List (Option Json)}
    {unknown : List String} {common : TaskSpec}
    (h : Rpc.createTasks E uid ctx code paramsList unknown common T = .ok T') :
    T' = T ∨ Rpc.create E uid ctx (Rpc.specVals E (code.getD "") paramsList common) T =
      .ok T' := by
  unfold Rpc.createTasks at h
  split_ifs at h
  · exact .inl (Except.ok.inj h).symm
  · split at h
    · cases h
    · cases h
    · exact .inr h

theorem UserCall.creates_ok {c : UserCall} (h : c.run E uid ctx T = .ok T') :
    T' = T ∨ (∃ valsList, c.creates E ctx = ctx.fill valsList ∧
      Rpc.create E uid ctx valsList T = .ok T') ∨
    (∃ ids vals, c = .write ids vals) ∨ (∃ ids, c = .actionCancel ids) ∨
      ∃ ids eta, c = .actionRetry ids eta := by
  cases c with
  | create valsList => exact .inr (.inl ⟨_, rfl, h⟩)
  | createTask c => exact (Rpc.createTask_ok h).imp_right fun h => .inl ⟨_, rfl, h⟩
  | createTasks code paramsList unknown common =>
    exact (Rpc.createTasks_ok h).imp_right fun h => .inl ⟨_, rfl, h⟩
  | write ids vals => exact .inr (.inr (.inl ⟨_, _, rfl⟩))
  | actionCancel ids => exact .inr (.inr (.inr (.inl ⟨_, rfl⟩)))
  | actionRetry ids eta => exact .inr (.inr (.inr (.inr ⟨_, _, rfl⟩)))

theorem forM_ok {α ε : Type} {g : α → Except ε Unit} : ∀ {l : List α},
    l.forM g = .ok () → ∀ a ∈ l, g a = .ok () := by
  intro l
  induction l with
  | nil => intro _ a ha; cases ha
  | cons b l ih =>
    intro h a ha
    change (g b >>= fun _ => l.forM g) = .ok () at h
    obtain ⟨_, h1, h2⟩ := bind_ok h
    rcases List.mem_cons.1 ha with rfl | ha
    · exact h1
    · exact ih h2 a ha

theorem Rpc.actionCancel_ok (h : Rpc.actionCancel E uid ids T = .ok T') :
    (∀ t ∈ T.rows, t.id ∈ ids → t.createUid = uid ∧ .cancelled ∈ allowedTransitions t.state) ∧
    T' = T.updateAll (Table.cancelled T.rows.length (T.rows.filter (·.createUid = uid)) ids)
      fun t => { t with state := .cancelled, dateCompleted := some E.now } := by
  unfold Rpc.actionCancel at h
  obtain ⟨_, ha, h⟩ := bind_ok h
  split at h
  · cases h
  · next hf =>
    refine ⟨fun t ht hid => ⟨checkAccess_ok ha t ht hid, ?_⟩, (Except.ok.inj h).symm⟩
    exact checkTransition_ok.1
      (forM_ok hf t (List.mem_filterMap.2 ⟨t.id, hid, Table.mem_iff_get.1 ht⟩))

theorem Rpc.actionRetry_ok {eta : Option ℕ} (h : Rpc.actionRetry uid ids eta T = .ok T') :
    Rpc.checkAccess uid ids T = .ok () ∧
      ids.foldlM (fun T id => T.modify id (GenericTaskQueue.actionRetry eta)) T = .ok T' := by
  unfold Rpc.actionRetry at h
  obtain ⟨_, ha, h⟩ := bind_ok h
  refine ⟨ha, ?_⟩
  split at h
  · cases h
  · next hf => exact Except.ok.inj h ▸ hf

theorem Rpc.write_lawful {v : ClientVals} (hl : T.Lawful) (h : Rpc.write uid ids v T = .ok T') :
    T'.Lawful := by
  obtain ⟨hf, -, rfl⟩ := Rpc.write_ok h
  exact hl.updateAll fun t _ _ => write_evolves hf t

/-- **One call.** A call that forges nothing leaves a lawful table. -/
theorem UserCall.lawful {c : UserCall} (hl : T.Lawful)
    (hok : T.inOrder (.rpc E uid ctx c) = true) (h : c.run E uid ctx T = .ok T') : T'.Lawful := by
  rcases UserCall.creates_ok h with rfl | ⟨valsList, hcreates, h⟩ | ⟨ids, vals, rfl⟩ |
    ⟨ids, rfl⟩ | ⟨ids, eta, rfl⟩
  · exact hl
  · refine Rpc.create_keeps (P := Table.Lawful) (F := (· = {}))
      (Q := fun T parent => T.ownParent uid parent = true) Rpc.write_lawful ?_ ?_ (fun r hr => ?_)
      hl h
    · exact fun hl hc hnew => insert_lawful hl hc (fun t ht => (hnew t ht).1)
        (fun t ht => (hnew t ht).2.1) fun t ht => (hnew t ht).2.2
    · intro T p u hu huid
      unfold Table.ownParent
      rw [Option.all_some, hu, Option.all_some]
      exact decide_eq_true huid
    · have hr := List.all_eq_true.1 hok r (hcreates ▸ hr)
      simp only [Bool.and_eq_true, decide_eq_true_eq, List.all_eq_true] at hr
      exact ⟨hr.1.1, hr.1.2, hr.2⟩
  · exact Rpc.write_lawful hl h
  · obtain ⟨ha, rfl⟩ := Rpc.actionCancel_ok h
    refine hl.updateAll fun t ht hm => cancelled_evolves ?_
    exact cancelled_allowed (fun t ht => List.mem_of_mem_filter ht)
      (fun u hu hid => (ha u hu hid).2) t ht hm
  · obtain ⟨-, hf⟩ := Rpc.actionRetry_ok h
    exact foldlM_keeps (P := Table.Lawful)
      (fun _ _ T T' hl h => hl.modify (fun t t' ht => actionRetry_evolves ht) h) hl hf

/-- **One step.** -/
theorem Table.Lawful.step {ev : QueueEv} (hl : T.Lawful) (hok : T.inOrder ev = true)
    (h : T.step ev = some T') : T'.Lawful := by
  cases ev with
  | rpc E uid ctx c =>
    obtain rfl := Option.some.inj h
    rcases commit_cases T (c.run E uid ctx T) with he | ⟨T₁, hrun, -, he⟩
    · rwa [he]
    · rw [he]
      exact UserCall.lawful hl hok hrun
  | worker E stmts =>
    obtain rfl := Option.some.inj h
    rcases commit_cases T (stmts.foldlM (WorkerStmt.run E) T) with he | ⟨T₁, hrun, -, he⟩
    · rwa [he]
    · rw [he]
      exact foldlM_keeps (P := Table.Lawful) (fun _ _ T T' hl h => WorkerStmt.lawful hl h) hl hrun

end Lawful

end GenericTaskQueue
