import GenericBackground.TaskQueue.Table

/-!
# Claiming tasks

`claim_task` on a table without foreign locks: the rows its `SELECT` returns, assigned to the
worker with a fresh runner id each. A row of a singleton type is selected only while no task of
its type is in flight, and only if it is the first pending task of its type; that second test
looks at all pending tasks of the type, whatever their channel and ETA.

`claimAndSpawn` is the worker's side: the type filter it passes (`getEffectiveTaskTypes`) and the
timeout it resolves for each claimed task.
-/

namespace GenericTaskQueue

open Query

/-! ## The query -/

/-- The arguments of `claim_task`, and the transaction's clock. -/
structure ClaimArgs where
  worker : WorkerId
  channels : List Channel
  taskTypes : List TypeCode
  singletonTypes : List TypeCode
  limit : ℕ
  now : ℕ
  deriving DecidableEq, Repr

def typeFilter (types : List TypeCode) : Option (List TypeCode) :=
  if types = [] then none else some types

/-- `eta IS NULL OR eta <= now` -/
def etaDue (now : ℕ) (t : Task) : Bool := t.eta.all (· ≤ now)

/-- The first pending task of a type: the canonical row of the singleton subquery. -/
def canonical (ts : List Task) (typeCode : TypeCode) : Option Task :=
  first keyLE (fun t => t.typeCode = typeCode ∧ t.state = .pending) ts

/-- Some task of the type is assigned, running or stuck. -/
def typeInFlight (ts : List Task) (typeCode : TypeCode) : Bool :=
  ts.any fun t => t.typeCode = typeCode ∧ t.state ∈ inFlightStates

/-- The `WHERE` of `claim_task`. -/
def claimable (c : ClaimArgs) (ts : List Task) (t : Task) : Bool :=
  t.state = .pending && t.channel ∈ c.channels &&
    (typeFilter c.taskTypes).all (t.typeCode ∈ ·) && etaDue c.now t &&
    (typeFilter c.singletonTypes).all (fun types => t.typeCode ∉ types ∨
      typeInFlight ts t.typeCode = false) &&
    (typeFilter c.singletonTypes).all (fun types => t.typeCode ∉ types ∨
      (canonical ts t.typeCode).map Task.id = some t.id)

/-- The rows that `claim_task` selects, in order, before `LIMIT`. -/
def claimSelect (c : ClaimArgs) (ts : List Task) : List Task := select keyLE (claimable c ts) ts

def Task.assigned (worker : WorkerId) (uuid : RunnerId) (t : Task) : Task :=
  { t with state := .assigned, workerId := some worker, runnerId := some uuid }

/-- `action_assign` and the fresh `runner_id`. -/
def claimRow (worker : WorkerId) (uuid : RunnerId) (t : Task) : Except TaskError Task := do
  let t' ← actionAssign worker t
  return { t' with runnerId := some uuid }

/-- `claim_task`: the claimed records, `uuid i` being the runner id of the `i`-th. -/
def claimTask (c : ClaimArgs) (uuid : ℕ → RunnerId) (ts : List Task) :
    Except TaskError (List Task) :=
  if c.channels = [] then .ok []
  else ((claimSelect c ts).take c.limit).zipIdx.mapM fun p => claimRow c.worker (uuid p.2) p.1

/-! ## The worker's side -/

structure TaskQueueWorker where
  recordId : WorkerId
  serviceName : Option String
  channels : List Channel := ["default"]
  taskTypes : List TypeCode := []
  maxParallelJobs : ℤ := 1
  defaultTaskTimeout : ℤ := 0
  deriving DecidableEq, Repr

/-- `_get_effective_task_types`: service affinity, then the allowlist when one is declared. -/
def getEffectiveTaskTypes (reg : Registry) (w : TaskQueueWorker) : List TypeCode :=
  let effective := (reg.filter fun e =>
    e.2.serviceName = none ∨ e.2.serviceName = w.serviceName).map Prod.fst
  if w.taskTypes = [] then effective else effective.filter (· ∈ w.taskTypes)

def getSingletonTypes (reg : Registry) : List TypeCode := (reg.filter (·.2.singleton)).map Prod.fst

/-- What `_claim_and_spawn` passes to `claim_task`. -/
def TaskQueueWorker.claimArgs (reg : Registry) (w : TaskQueueWorker) (limit : ℕ) (now : ℕ) :
    ClaimArgs where
  worker := w.recordId
  channels := w.channels
  taskTypes := getEffectiveTaskTypes reg w
  singletonTypes := getSingletonTypes reg
  limit := limit
  now := now

/-- Task timeout, else type default, else worker default. -/
def resolvedTimeout (w : TaskQueueWorker) (defaultTimeout : TypeCode → ℤ) (t : Task) : ℤ :=
  if 0 < t.timeout then t.timeout
  else if 0 < defaultTimeout t.typeCode then defaultTimeout t.typeCode
  else w.defaultTaskTimeout

/-- `_claim_and_spawn`: each claimed task with the timeout its thread is spawned with. A claim that
raises is logged, and nothing is spawned. -/
def claimAndSpawn (reg : Registry) (w : TaskQueueWorker) (defaultTimeout : TypeCode → ℤ)
    (limit : ℕ) (now : ℕ) (uuid : ℕ → RunnerId) (ts : List Task) : List (Task × ℤ) :=
  match claimTask (w.claimArgs reg limit now) uuid ts with
  | .ok claimed => claimed.map fun t => (t, resolvedTimeout w defaultTimeout t)
  | .error _ => []

/-! ## What a claim returns -/

theorem typeFilter_all {types : List TypeCode} {p : List TypeCode → Bool} :
    (typeFilter types).all p = true ↔ types = [] ∨ p types = true := by
  unfold typeFilter
  by_cases h : types = [] <;> simp [h]

theorem claimable_iff {c : ClaimArgs} {ts : List Task} {t : Task} : claimable c ts t = true ↔
    t.state = .pending ∧ t.channel ∈ c.channels ∧ (c.taskTypes = [] ∨ t.typeCode ∈ c.taskTypes) ∧
      etaDue c.now t = true ∧ (t.typeCode ∈ c.singletonTypes →
        typeInFlight ts t.typeCode = false ∧
          (canonical ts t.typeCode).map Task.id = some t.id) := by
  unfold claimable
  simp only [Bool.and_eq_true, typeFilter_all, decide_eq_true_eq, and_assoc]
  refine and_congr_right fun _ => and_congr_right fun _ => and_congr_right fun _ =>
    and_congr_right fun _ => ?_
  by_cases hm : t.typeCode ∈ c.singletonTypes
  · have hne : c.singletonTypes ≠ [] := List.ne_nil_of_mem hm
    simp [hm, hne]
  · simp [hm]

theorem claimRow_ok {w : WorkerId} {r : RunnerId} {t : Task} (h : t.state = .pending) :
    claimRow w r t = .ok (t.assigned w r) := by
  unfold claimRow actionAssign
  rw [checked_of_mem (by rw [h]; decide)]
  rfl

theorem claimRow_eq {w : WorkerId} {r : RunnerId} {t t' : Task} (h : claimRow w r t = .ok t') :
    t.state = .pending ∧ t' = t.assigned w r := by
  unfold claimRow at h
  obtain ⟨u, hu, h⟩ := bind_ok h
  obtain ⟨hs, rfl⟩ := checked_ok hu
  refine ⟨?_, (Except.ok.inj h).symm⟩
  revert hs
  cases t.state <;> decide

theorem mapM_claimRow {w : WorkerId} {uuid : ℕ → RunnerId} {l : List (Task × ℕ)}
    (h : ∀ p ∈ l, p.1.state = .pending) : l.mapM (fun p => claimRow w (uuid p.2) p.1) =
      .ok (l.map fun p => p.1.assigned w (uuid p.2)) := by
  induction l with
  | nil => rfl
  | cons p l ih =>
    rw [List.mapM_cons, claimRow_ok (h p List.mem_cons_self),
      ih fun q hq => h q (List.mem_cons_of_mem p hq)]
    rfl

theorem claimSelect_pending {c : ClaimArgs} {ts : List Task} {t : Task}
    (h : t ∈ claimSelect c ts) : t ∈ ts ∧ claimable c ts t = true := mem_select.1 h

/-- Nothing is claimable without a channel, so the early return for no channels changes nothing. -/
theorem claimSelect_no_channels {c : ClaimArgs} {ts : List Task} (h : c.channels = []) :
    claimSelect c ts = [] := by
  rw [List.eq_nil_iff_forall_not_mem]
  intro t ht
  have := (claimable_iff.1 (claimSelect_pending ht).2).2.1
  rw [h] at this
  exact absurd this List.not_mem_nil

/-- `claim_task` never raises: it assigns the first `limit` rows of its query. -/
theorem claimTask_eq (c : ClaimArgs) (uuid : ℕ → RunnerId) (ts : List Task) :
    claimTask c uuid ts = .ok (((claimSelect c ts).take c.limit).zipIdx.map fun p =>
      p.1.assigned c.worker (uuid p.2)) := by
  unfold claimTask
  split_ifs with h
  · rw [claimSelect_no_channels h, List.take_nil]; rfl
  · apply mapM_claimRow
    intro p hp
    have hm : p.1 ∈ (claimSelect c ts).take c.limit := by
      obtain ⟨_, _, h3⟩ := List.mem_zipIdx hp
      rw [h3]
      exact List.getElem_mem _
    exact (claimable_iff.1 (mem_of_mem_take hm).2).1

theorem mem_claimTask {c : ClaimArgs} {uuid : ℕ → RunnerId} {ts claimed : List Task} {t' : Task}
    (h : claimTask c uuid ts = .ok claimed) (ht : t' ∈ claimed) :
    ∃ t ∈ ts, ∃ r, claimable c ts t = true ∧ t' = t.assigned c.worker r := by
  rw [claimTask_eq] at h
  obtain rfl := Except.ok.inj h
  obtain ⟨p, hp, rfl⟩ := List.mem_map.1 ht
  obtain ⟨_, _, h3⟩ := List.mem_zipIdx hp
  have hm : p.1 ∈ (claimSelect c ts).take c.limit := by rw [h3]; exact List.getElem_mem _
  obtain ⟨h1, h2⟩ := mem_of_mem_take hm
  exact ⟨p.1, h1, _, h2, rfl⟩

theorem claimTask_ne_nil {c : ClaimArgs} {uuid : ℕ → RunnerId} {ts claimed : List Task}
    (hl : 0 < c.limit) (h : claimTask c uuid ts = .ok claimed) :
    claimed ≠ [] ↔ ∃ t ∈ ts, claimable c ts t = true := by
  rw [claimTask_eq] at h
  obtain rfl := Except.ok.inj h
  rw [Ne, List.map_eq_nil_iff, List.zipIdx_eq_nil_iff]
  exact take_ne_nil_iff hl

/-! ## Progress of a claim -/

/-- A task that the caller may expect to be claimed: pending on one of the channels, of an accepted
type, due, and not of a singleton type that has a task in flight. -/
def Eligible (c : ClaimArgs) (ts : List Task) (t : Task) : Prop :=
  t.state = .pending ∧ t.channel ∈ c.channels ∧ (c.taskTypes = [] ∨ t.typeCode ∈ c.taskTypes) ∧
    etaDue c.now t = true ∧ (t.typeCode ∈ c.singletonTypes → typeInFlight ts t.typeCode = false)

theorem canonical_spec {ts : List Task} {code : TypeCode} {u : Task}
    (h : canonical ts code = some u) : u ∈ ts ∧ u.typeCode = code ∧ u.state = .pending := by
  have := first_mem h
  simpa [and_assoc] using this

/-- The first pending task of a singleton type that has no task in flight is claimable when it is
due on one of the channels. -/
theorem claimable_canonical {c : ClaimArgs} {ts : List Task} {t u : Task} (ht : Eligible c ts t)
    (hu : canonical ts t.typeCode = some u) (hc : u.channel ∈ c.channels)
    (hd : etaDue c.now u = true) : claimable c ts u = true := by
  obtain ⟨-, hcode, hp⟩ := canonical_spec hu
  obtain ⟨-, -, htype, -, hfree⟩ := ht
  rw [← hcode] at htype hfree hu
  exact claimable_iff.2 ⟨hp, hc, htype, hd, fun hs => ⟨hfree hs, by rw [hu]; rfl⟩⟩

/-- A claim takes a task exactly when some eligible task is not of a singleton type, or the first
pending task of its type is itself due and on one of the channels. -/
theorem claims_iff {c : ClaimArgs} {uuid : ℕ → RunnerId} {T : Table} (hl : 1 ≤ c.limit) :
    (∃ claimed, claimTask c uuid T.rows = .ok claimed ∧ claimed ≠ []) ↔
      ∃ t ∈ T.rows, Eligible c T.rows t ∧ (t.typeCode ∉ c.singletonTypes ∨
        ∃ u, canonical T.rows t.typeCode = some u ∧ u.channel ∈ c.channels ∧
          etaDue c.now u = true) := by
  have hc : (∃ claimed, claimTask c uuid T.rows = .ok claimed ∧ claimed ≠ []) ↔
      ∃ t ∈ T.rows, claimable c T.rows t = true :=
    ⟨fun ⟨_, h1, h2⟩ => (claimTask_ne_nil hl h1).1 h2, fun h =>
      ⟨_, claimTask_eq c uuid T.rows, (claimTask_ne_nil hl (claimTask_eq c uuid T.rows)).2 h⟩⟩
  rw [hc]
  constructor
  · rintro ⟨t, ht, hcl⟩
    obtain ⟨h1, h2, h3, h4, h5⟩ := claimable_iff.1 hcl
    refine ⟨t, ht, ⟨h1, h2, h3, h4, fun hs => (h5 hs).1⟩, ?_⟩
    by_cases hs : t.typeCode ∈ c.singletonTypes
    · -- a claimable row of a singleton type is the canonical row itself
      obtain ⟨u, hu, hid⟩ := Option.map_eq_some_iff.1 (h5 hs).2
      obtain rfl := Table.eq_of_id (canonical_spec hu).1 ht hid
      exact .inr ⟨u, hu, h2, h4⟩
    · exact .inl hs
  · rintro ⟨t, ht, he, hs | ⟨u, hu, hch, hd⟩⟩
    · obtain ⟨h1, h2, h3, h4, -⟩ := he
      exact ⟨t, ht, claimable_iff.2 ⟨h1, h2, h3, h4, fun h => absurd h hs⟩⟩
    · exact ⟨u, (canonical_spec hu).1, claimable_canonical he hu hch hd⟩

/-- **Progress.** A claim that has an eligible task before it takes one, exactly when some eligible
task is not hidden: its type is not a singleton, or the first pending task of its type (over all
channels and ETAs) is itself due and on one of the channels. -/
theorem claim_progress_iff (c : ClaimArgs) (uuid : ℕ → RunnerId) (T : Table) (hl : 1 ≤ c.limit) :
    ((∃ t ∈ T.rows, Eligible c T.rows t) →
        ∃ claimed, claimTask c uuid T.rows = .ok claimed ∧ claimed ≠ []) ↔
      ((∃ t ∈ T.rows, Eligible c T.rows t) →
        ∃ t ∈ T.rows, Eligible c T.rows t ∧ (t.typeCode ∉ c.singletonTypes ∨
          ∃ u, canonical T.rows t.typeCode = some u ∧ u.channel ∈ c.channels ∧
            etaDue c.now u = true)) :=
  imp_congr_right fun _ => claims_iff hl

/-- A singleton type whose first pending task is scheduled for later, and whose second is due. -/
def shadowedTable : Table where
  rows := [
    { id := 1, name := "nightly", typeCode := "stats.recompute", eta := some 7200
      dateCreated := 10, createUid := 2 },
    { id := 2, name := "now", typeCode := "stats.recompute", dateCreated := 20, createUid := 2 }]
  nodup := by decide

def statsClaim : ClaimArgs where
  worker := 1
  channels := ["default"]
  taskTypes := ["stats.recompute"]
  singletonTypes := ["stats.recompute"]
  limit := 1
  now := 3600

instance (c : ClaimArgs) (ts : List Task) (t : Task) : Decidable (Eligible c ts t) := by
  unfold Eligible; infer_instance

/-- The due task is eligible, and the claim takes nothing. -/
theorem claim_shadowed_by_eta :
    (∃ t ∈ shadowedTable.rows, Eligible statsClaim shadowedTable.rows t) ∧
      claimTask statsClaim id shadowedTable.rows = .ok [] := by
  decide

/-- Once the first task is due as well, the claim takes one. -/
theorem claim_progress_later :
    ∃ claimed, claimTask { statsClaim with now := 7200 } id shadowedTable.rows = .ok claimed ∧
      claimed ≠ [] :=
  (claim_progress_iff { statsClaim with now := 7200 } id shadowedTable (by decide)).2
    (fun _ => ⟨shadowedTable.rows[0], by decide, by decide, .inr ⟨shadowedTable.rows[0],
      by decide, by decide, by decide⟩⟩)
    (by decide)

/-! ## Service affinity -/

theorem mem_claimAndSpawn {reg : Registry} {w : TaskQueueWorker} {dt : TypeCode → ℤ} {limit : ℕ}
    {now : ℕ} {uuid : ℕ → RunnerId} {ts : List Task} {p : Task × ℤ}
    (h : p ∈ claimAndSpawn reg w dt limit now uuid ts) :
    ∃ t ∈ ts, claimable (w.claimArgs reg limit now) ts t = true ∧
      p.1.typeCode = t.typeCode := by
  unfold claimAndSpawn at h
  rw [claimTask_eq] at h
  obtain ⟨t', ht', rfl⟩ := List.mem_map.1 h
  obtain ⟨t, ht, r, hc, rfl⟩ := mem_claimTask (claimTask_eq _ _ _) ht'
  exact ⟨t, ht, hc, rfl⟩

theorem claimAndSpawn_ne_nil (reg : Registry) (w : TaskQueueWorker) (dt : TypeCode → ℤ)
    {limit : ℕ} (now : ℕ) (uuid : ℕ → RunnerId) (ts : List Task) (hl : 1 ≤ limit) :
    claimAndSpawn reg w dt limit now uuid ts ≠ [] ↔
      ∃ t ∈ ts, claimable (w.claimArgs reg limit now) ts t = true := by
  have hl' : 0 < (w.claimArgs reg limit now).limit := hl
  have h := claimTask_ne_nil hl' (claimTask_eq (w.claimArgs reg limit now) uuid ts)
  rw [← h]
  unfold claimAndSpawn
  rw [claimTask_eq]
  exact not_congr List.map_eq_nil_iff

/-- **Service affinity.** Every task that `_claim_and_spawn` takes has an effective type of the
worker exactly when the worker has an effective type, or the table has no task that a claim
without a type filter would take. -/
theorem claim_affinity_iff (reg : Registry) (w : TaskQueueWorker) (dt : TypeCode → ℤ) (limit : ℕ)
    (now : ℕ) (uuid : ℕ → RunnerId) (ts : List Task) (hl : 1 ≤ limit) :
    (∀ p ∈ claimAndSpawn reg w dt limit now uuid ts,
        p.1.typeCode ∈ getEffectiveTaskTypes reg w) ↔
      getEffectiveTaskTypes reg w ≠ [] ∨
        ∀ t ∈ ts, claimable { w.claimArgs reg limit now with taskTypes := [] } ts t = false := by
  by_cases he : getEffectiveTaskTypes reg w = []
  · -- an empty list of types reaches the query as no filter
    have hargs : { w.claimArgs reg limit now with taskTypes := [] } =
        w.claimArgs reg limit now := by rw [TaskQueueWorker.claimArgs, he]
    rw [hargs, he, or_iff_right (not_not_intro rfl)]
    have hnil := claimAndSpawn_ne_nil reg w dt now uuid ts hl
    constructor
    · intro h t ht
      by_contra hc
      obtain ⟨p, hp⟩ := List.exists_mem_of_ne_nil _
        (hnil.2 ⟨t, ht, Bool.eq_true_of_not_eq_false hc⟩)
      exact List.not_mem_nil (h p hp)
    · intro h p hp
      obtain ⟨t, ht, hc, -⟩ := mem_claimAndSpawn hp
      rw [h t ht] at hc
      cases hc
  · refine iff_of_true (fun p hp => ?_) (.inl he)
    obtain ⟨t, -, hc, hcode⟩ := mem_claimAndSpawn hp
    rw [hcode]
    exact (claimable_iff.1 hc).2.2.1.resolve_left he

def mailRegistry : Registry := [("mail.send", { serviceName := some "mail" })]

/-- A worker of a service that no registered type belongs to. -/
def idleWorker : TaskQueueWorker := { recordId := 1, serviceName := some "reports" }

def mailQueue : List Task :=
  [{ id := 1, name := "welcome", typeCode := "mail.send", dateCreated := 10, createUid := 2 }]

/-- A worker with no effective type claims a task of another service. -/
theorem claim_without_effective_types : getEffectiveTaskTypes mailRegistry idleWorker = [] ∧
    (claimAndSpawn mailRegistry idleWorker (fun _ => 0) 1 60 id mailQueue).map
      (fun p => (p.1.id, p.1.typeCode, p.1.workerId)) = [(1, "mail.send", some 1)] := by
  decide

def mailWorker : TaskQueueWorker := { idleWorker with serviceName := some "mail" }

theorem claim_affinity_mail :
    (claimAndSpawn mailRegistry mailWorker (fun _ => 0) 1 60 id mailQueue).map
      (fun p => p.1.id) = [1] ∧
    ∀ p ∈ claimAndSpawn mailRegistry mailWorker (fun _ => 0) 1 60 id mailQueue,
      p.1.typeCode ∈ getEffectiveTaskTypes mailRegistry mailWorker :=
  ⟨by decide, (claim_affinity_iff mailRegistry mailWorker (fun _ => 0) 1 60 id mailQueue
    (by decide)).2 (.inl (by decide))⟩

end GenericTaskQueue
