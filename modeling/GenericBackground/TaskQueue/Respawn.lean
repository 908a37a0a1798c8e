import GenericBackground.TaskQueue.LiveThread

/-!
# Workers that are stopped and respawned

The service keeps one `TaskQueueWorker` for a database. Its beat stops the worker of a database that
has become inactive, removes a worker that has ended, and spawns one for an active database without.
A worker that shuts down waits for its task threads for a minute, then forgets them. The next one
has the same worker record (`find_or_create`), and its startup cleanup recovers every task in flight
of that record.

A startup cleanup touches no task of a live thread, if all the threads of the record have ended when
it begins (`Service.afterThreads`). Nothing in the code waits for that.
-/

namespace GenericTaskQueue

open RowStore Lts

/-- Where the thread of a worker is. `cleaning` names the transaction of its startup cleanup. -/
inductive WorkerPhase where
  | initializing
  | registered
  | cleaning (i : ℕ)
  | serving
  | ended
  deriving DecidableEq, Repr

/-- The thread of a `TaskQueueWorker`; `stopped` is its stop event. -/
structure WorkerThread where
  phase : WorkerPhase := .initializing
  stopped : Bool := false
  deriving DecidableEq, Repr

/-- The service, for one database: `worker` is its entry of `_workers`. -/
structure Service where
  sys : Sys
  worker : Option WorkerThread

inductive ServiceEv where
  | sys (ev : Ev)
  | beat (activeOnStop activeOnSpawn : Bool)
  | findOrCreate (ok : Bool)
  | cleanupOrphanedTasks (now : ℕ) (body : List (TaskId × UserAct))
  | onShutdown

/-! ## The beat of the service -/

def stopWorkers (active : Bool) (w : Option WorkerThread) : Option WorkerThread :=
  if active then w else w.map fun w =>
    if w.phase = .ended then w else { w with stopped := true }

def cleanWorkers (w : Option WorkerThread) : Option WorkerThread :=
  w.filter fun w => w.phase ≠ .ended

def spawnWorkers (active : Bool) (w : Option WorkerThread) : Option WorkerThread :=
  if active ∧ w.isNone then some {} else w

/-! ## The worker -/

def restartedError : String := "Worker restarted during execution (previous run was lost)"

/-- The tasks of a worker record in some states, in the order of the model. -/
def orphans (record : WorkerId) (states : List TaskState) (σ : Snapshot TaskId Task) :
    List TaskId :=
  (Query.select keyLE (fun t => t.workerId = some record && t.state ∈ states) σ.table).map Task.id

/-- The transaction of `_cleanup_orphaned_tasks`. -/
def cleanupOrphanedTasks (record : WorkerId) (now : ℕ) (body : List (TaskId × UserAct))
    (σ : Snapshot TaskId Task) : Tx :=
  .recoverLostExecutions (orphans record [.waiting] σ) (orphans record inFlightStates σ) now
    restartedError body

/-- What the worker itself does only while it serves: it claims tasks and looks after its
threads. -/
def Ev.ofWorker (record : WorkerId) : Ev → Bool
  | .db (.begin (.claimTask c _ _)) => c.worker = record
  | .finalizeCompleted w => w = record
  | _ => false

/-- The startup cleanup is over when its transaction is closed. -/
def WorkerThread.after (w : WorkerThread) : Ev → WorkerThread
  | .db (.commit i) => if w.phase = .cleaning i then { w with phase := .serving } else w
  | .db (.abort i) => if w.phase = .cleaning i then { w with phase := .serving } else w
  | _ => w

/-- `_active_tasks.clear()`. -/
def Thread.forgotten (record : WorkerId) (th : Thread) : Thread :=
  if th.worker = record then { th with tracked := .removed } else th

def Sys.forget (record : WorkerId) (s : Sys) : Sys :=
  ⟨s.db, s.threads.map (Thread.forgotten record)⟩

/-- One step of the service of worker record `record`. An error in `on_init` shuts the worker down;
so does the stop event, once a run of `run_service` is over. -/
def Service.step (reg : Registry) (record : WorkerId) (s : Service) : ServiceEv → Option Service
  | .sys ev =>
    if ev.ofWorker record = true → s.worker.map WorkerThread.phase = some .serving then
      (s.sys.step reg ev).map fun sys => ⟨sys, s.worker.map (·.after ev)⟩
    else none
  | .beat activeOnStop activeOnSpawn => some ⟨s.sys,
      spawnWorkers activeOnSpawn (cleanWorkers (stopWorkers activeOnStop s.worker))⟩
  | .findOrCreate ok => match s.worker with
    | some ⟨.initializing, stopped⟩ =>
      some ⟨s.sys, some ⟨if ok then .registered else .ended, stopped⟩⟩
    | _ => none
  | .cleanupOrphanedTasks now body => match s.worker with
    | some ⟨.registered, stopped⟩ =>
      (s.sys.step reg (.db (.begin (cleanupOrphanedTasks record now body s.sys.db.cur)))).map
        fun sys => ⟨sys, some ⟨.cleaning s.sys.db.nextId, stopped⟩⟩
    | _ => none
  | .onShutdown => match s.worker with
    | some ⟨.serving, true⟩ => some ⟨s.sys.forget record, some ⟨.ended, true⟩⟩
    | _ => none

/-- No worker has been spawned, and nothing runs. -/
structure Service.Start (s : Service) : Prop where
  sys : GenericTaskQueue.Start s.sys
  worker : s.worker = none

/-! ## The conditions -/

/-- A startup cleanup begins when all the threads of its record have ended. -/
def Service.afterThreads (record : WorkerId) (s : Service) : ServiceEv → Bool
  | .cleanupOrphanedTasks _ _ =>
    s.sys.threads.all fun th => th.worker = record → th.phase = .ended
  | _ => true

/-- No heartbeat lapses: nobody else recovers a task of a worker that has live threads. -/
def Service.heartbeatsHold (s : Service) : ServiceEv → Bool
  | .sys ev => s.sys.recoversEnded ev
  | _ => true

/-- The step commits the startup cleanup of the worker. -/
def Service.cleansUp (s : Service) : ServiceEv → Bool
  | .sys (.db (.commit i)) => s.worker.map WorkerThread.phase = some (.cleaning i)
  | _ => false

/-! ## Threads that are forgotten -/

section Forget

variable {reg : Registry} {record : WorkerId} {s : Sys} {r : RunnerId}

theorem Thread.forgotten_same (record : WorkerId) (th : Thread) :
    (th.forgotten record).runner = th.runner ∧ (th.forgotten record).task = th.task ∧
      (th.forgotten record).worker = th.worker ∧ (th.forgotten record).phase = th.phase := by
  unfold Thread.forgotten
  split_ifs <;> exact ⟨rfl, rfl, rfl, rfl⟩

theorem mem_forget {th : Thread} :
    th ∈ (s.forget record).threads ↔ ∃ u ∈ s.threads, th = u.forgotten record := by
  simp [Sys.forget, eq_comm]

theorem forget_thread {p : Thread → Prop} (h : ∃ th ∈ s.threads, p (th.forgotten record)) :
    ∃ th ∈ (s.forget record).threads, p th := by
  obtain ⟨th, hm, hp⟩ := h
  exact ⟨_, mem_forget.2 ⟨th, hm, rfl⟩, hp⟩

theorem Inv.forget (hi : Inv reg s) : Inv reg (s.forget record) := by
  have hthread : ∀ {r k}, (∃ th ∈ s.threads, th.runner = r ∧ th.task = k) →
      ∃ th ∈ (s.forget record).threads, th.runner = r ∧ th.task = k := by
    rintro r k ⟨th, hm, h⟩
    have hsame := th.forgotten_same record
    exact forget_thread ⟨th, hm, by rw [hsame.1, hsame.2.1]; exact h⟩
  refine ⟨hi.wf, hi.ids, hi.snapIds, ?_, fun k r h => hthread (hi.held k r h),
    fun i x r k hx ho => hthread (hi.owned i x r k hx ho), hi.snap⟩
  have hmap : (s.forget record).threads.map Thread.runner = s.threads.map Thread.runner := by
    show (s.threads.map _).map _ = _
    rw [List.map_map]
    exact List.map_congr_left fun th _ => (th.forgotten_same record).1
  rw [hmap]
  exact hi.runners

theorem Busy.forget (hb : Busy s) : Busy (s.forget record) where
  phase i x r k p hx ho hp := by
    obtain ⟨th, hm, h⟩ := hb.phase i x r k p hx ho hp
    have hsame := th.forgotten_same record
    exact forget_thread ⟨th, hm, by rw [hsame.1, hsame.2.1, hsame.2.2.2]; exact h⟩
  unique := hb.unique

theorem Sys.ended_forget (h : s.ended r) : (s.forget record).ended r := by
  obtain ⟨th, hm, h⟩ := h
  have hsame := th.forgotten_same record
  exact forget_thread ⟨th, hm, by rw [hsame.1, hsame.2.2.2]; exact h⟩

theorem Live.forget (hl : Live s) : Live (s.forget record) where
  worker th hm := by
    obtain ⟨u, hu, rfl⟩ := mem_forget.1 hm
    have hsame := u.forgotten_same record
    rw [hsame.1, hsame.2.1, hsame.2.2.1]
    exact hl.worker u hu
  resolving th hm := by
    obtain ⟨u, hu, rfl⟩ := mem_forget.1 hm
    rw [(u.forgotten_same record).2.2.2]
    intro ht
    unfold Thread.forgotten at ht
    split_ifs at ht
    exact hl.resolving u hu ht
  checked i x r k now body hx ha := Sys.ended_forget (hl.checked i x r k now body hx ha)
  recovered i x waiting ids now error body hx ha k hk r hh :=
    Sys.ended_forget (hl.recovered i x waiting ids now error body hx ha k hk r hh)
  key th hm := by
    obtain ⟨u, hu, rfl⟩ := mem_forget.1 hm
    rw [(u.forgotten_same record).2.1]
    exact hl.key u hu
  drawn i x hx th hm := by
    obtain ⟨u, hu, rfl⟩ := mem_forget.1 hm
    rw [(u.forgotten_same record).2.1]
    exact hl.drawn i x hx u hu
  row th hm := by
    obtain ⟨u, hu, rfl⟩ := mem_forget.1 hm
    have hsame := u.forgotten_same record
    rw [hsame.1, hsame.2.1, hsame.2.2.2]
    exact hl.row u hu
  one th hm th' hm' := by
    obtain ⟨u, hu, rfl⟩ := mem_forget.1 hm
    obtain ⟨u', hu', rfl⟩ := mem_forget.1 hm'
    have hsame := u.forgotten_same record
    have hsame' := u'.forgotten_same record
    rw [hsame.2.1, hsame.2.2.2, hsame'.2.1, hsame'.2.2.2]
    intro h h' heq
    rw [hl.one u hu u' hu' h h' heq]

end Forget

/-! ## What a step of the service does -/

variable {reg : Registry} {record : WorkerId} {s s' : Service} {ev : ServiceEv}
  {es : List ServiceEv}

theorem Service.step_sys (h : s.step reg record ev = some s') :
    (∃ e, ev = .sys e ∧ s.sys.step reg e = some s'.sys ∧
        s'.worker = s.worker.map (·.after e)) ∨
      (∃ now body, ev = .cleanupOrphanedTasks now body ∧
        s.sys.step reg (.db (.begin (cleanupOrphanedTasks record now body s.sys.db.cur))) =
          some s'.sys ∧ s'.worker.map WorkerThread.phase = some (.cleaning s.sys.db.nextId)) ∨
      ((s'.sys = s.sys ∨ s'.sys = s.sys.forget record) ∧
        ∀ i, s'.worker.map WorkerThread.phase = some (.cleaning i) →
          s.worker.map WorkerThread.phase = some (.cleaning i)) := by
  cases ev <;> simp only [Service.step] at h
  case sys e =>
    split_ifs at h
    obtain ⟨sys, hsys, rfl⟩ := Option.map_eq_some_iff.1 h
    exact .inl ⟨e, rfl, hsys, rfl⟩
  case beat activeOnStop activeOnSpawn =>
    obtain rfl := Option.some.inj h
    refine .inr (.inr ⟨.inl rfl, fun i hi => ?_⟩)
    rcases hw : s.worker with _ | w
    · rw [hw] at hi
      revert hi
      cases activeOnStop <;> cases activeOnSpawn <;> simp [stopWorkers, cleanWorkers, spawnWorkers]
    · rw [hw] at hi
      by_cases hp : w.phase = .ended
      · revert hi
        cases activeOnStop <;> cases activeOnSpawn <;>
          simp [stopWorkers, cleanWorkers, spawnWorkers, hp]
      · revert hi
        cases activeOnStop <;> cases activeOnSpawn <;>
          simp [stopWorkers, cleanWorkers, spawnWorkers, hp]
  case findOrCreate ok =>
    split at h
    · obtain rfl := Option.some.inj h
      refine .inr (.inr ⟨.inl rfl, fun i hi => ?_⟩)
      cases ok <;> simp at hi
    · cases h
  case cleanupOrphanedTasks now body =>
    split at h
    · obtain ⟨sys, hsys, rfl⟩ := Option.map_eq_some_iff.1 h
      exact .inr (.inl ⟨now, body, rfl, hsys, rfl⟩)
    · cases h
  case onShutdown =>
    split at h
    · obtain rfl := Option.some.inj h
      exact .inr (.inr ⟨.inr rfl, fun i hi => by simp at hi⟩)
    · cases h

/-- What holds of the system in every run of the service. -/
structure Service.Ok (reg : Registry) (s : Service) : Prop where
  inv : Inv reg s.sys
  busy : Busy s.sys

theorem Service.Start.okay (h : s.Start) : s.Ok reg := ⟨h.sys.inv, h.sys.busy⟩

theorem Service.Ok.step (hk : s.Ok reg) (h : s.step reg record ev = some s') : s'.Ok reg := by
  rcases Service.step_sys h with ⟨e, -, hs, -⟩ | ⟨now, body, -, hs, -⟩ | ⟨heq | heq, -⟩
  · exact ⟨hk.inv.step hs, hk.busy.step hk.inv hs⟩
  · exact ⟨hk.inv.step hs, hk.busy.step hk.inv hs⟩
  · exact ⟨heq ▸ hk.inv, heq ▸ hk.busy⟩
  · exact ⟨heq ▸ hk.inv.forget, heq ▸ hk.busy.forget⟩

/-- While the startup cleanup is open, the task of a live thread of its record has been written
since its snapshot. -/
def Service.Cleaning (record : WorkerId) (s : Service) : Prop :=
  ∀ i, s.worker.map WorkerThread.phase = some (.cleaning i) → ∃ x, s.sys.db.txns i = some x ∧
    ∀ th ∈ s.sys.threads, th.worker = record → th.phase ≠ .ended →
      x.snap.ver th.task < s.sys.db.cur.ver th.task

theorem after_cleaning {w : Option WorkerThread} {e : Ev} {i : ℕ}
    (h : (w.map (·.after e)).map WorkerThread.phase = some (.cleaning i)) :
    w.map WorkerThread.phase = some (.cleaning i) ∧ e ≠ .db (.commit i) ∧ e ≠ .db (.abort i) := by
  rcases w with _ | w
  · cases h
  have hw : (w.after e).phase = .cleaning i := Option.some.inj h
  unfold WorkerThread.after at hw
  split at hw
  next j =>
    split_ifs at hw with hj
    · refine ⟨congrArg some hw, fun he => hj ?_, nofun⟩
      rw [Event.commit.inj (Ev.db.inj he)]
      exact hw
  next j =>
    split_ifs at hw with hj
    · refine ⟨congrArg some hw, nofun, fun he => hj ?_⟩
      rw [Event.abort.inj (Ev.db.inj he)]
      exact hw
  next hc ha => exact ⟨congrArg some hw, fun he => hc i he, fun he => ha i he⟩

theorem Service.Cleaning.step (hk : s.Ok reg) (hc : s.Cleaning record)
    (hok : s.afterThreads record ev = true) (h : s.step reg record ev = some s') :
    s'.Cleaning record := by
  intro i hphase
  rcases Service.step_sys h with ⟨e, -, hs, hw⟩ | ⟨now, body, rfl, hs, hw⟩ | ⟨heq, hback⟩
  · rw [hw] at hphase
    obtain ⟨hphase, hnc, hna⟩ := after_cleaning hphase
    obtain ⟨x, hx, hver⟩ := hc i hphase
    obtain ⟨x', hx', -, hsnap, -⟩ := Sys.txn_stays hk.inv.wf hs hx hnc hna
    refine ⟨x', hx', fun th' hm' hr hl => ?_⟩
    rw [hsnap]
    rcases Sys.step_thread hs hm' with ⟨th, hm, rfl⟩ | ⟨j, y, rfl, hy, hsp⟩
    · obtain ⟨-, h2, h3⟩ := th.after_same s.sys e
      rw [h2]
      exact Nat.lt_of_lt_of_le
        (hver th hm (h3 ▸ hr) (live_before hk.inv hk.busy hs hm hl)) (Sys.ver_le hs _)
    · exact Nat.lt_of_le_of_lt ((hk.inv.wf.txn i x hx).older _) (spawned_ver hk.inv hs hy hsp)
  · -- it begins when the threads of the record have ended
    rw [hw] at hphase
    obtain rfl : s.sys.db.nextId = i := by simpa using hphase
    simp only [Service.afterThreads, List.all_eq_true, decide_eq_true_eq] at hok
    refine ⟨_, (Sys.step_of_db hs).2.begin_inv.1, fun th' hm' hr hl => ?_⟩
    rcases Sys.step_thread hs hm' with ⟨th, hm, heq⟩ | ⟨j, y, he', -⟩
    · rw [heq] at hr hl
      rw [(th.after_same s.sys _).2.2] at hr
      exact absurd (hok th hm hr) (live_before hk.inv hk.busy hs hm hl)
    · cases he'
  · obtain ⟨x, hx, hver⟩ := hc i (hback i hphase)
    rcases heq with heq | heq
    · rw [heq]
      exact ⟨x, hx, hver⟩
    · rw [heq]
      refine ⟨x, hx, fun th hm => ?_⟩
      obtain ⟨u, hu, rfl⟩ := mem_forget.1 hm
      have hsame := u.forgotten_same record
      rw [hsame.2.1, hsame.2.2.1, hsame.2.2.2]
      exact hver u hu

theorem mem_orphans {record : WorkerId} {states : List TaskState} {σ : Snapshot TaskId Task}
    {k : TaskId} (hσ : σ.Ok) (hid : ∀ k, IdAt k (σ.row k)) (h : k ∈ orphans record states σ) :
    ∃ t, σ.row k = some t ∧ t.workerId = some record := by
  obtain ⟨t, ht, rfl⟩ := List.mem_map.1 h
  obtain ⟨ht, hp⟩ := Query.mem_select.1 ht
  obtain ⟨k, hk⟩ := (Snapshot.mem_table hσ).1 ht
  simp only [Bool.and_eq_true, decide_eq_true_eq] at hp
  exact ⟨t, hid k t hk ▸ hk, hp.1⟩

theorem cleanup_recoversEnded (hk : s.Ok reg) {now : ℕ} {body : List (TaskId × UserAct)}
    (hok : s.afterThreads record (.cleanupOrphanedTasks now body) = true) :
    s.sys.recoversEnded (.db (.begin (cleanupOrphanedTasks record now body s.sys.db.cur))) =
      true := by
  simp only [Service.afterThreads, List.all_eq_true, decide_eq_true_eq] at hok
  simp only [cleanupOrphanedTasks, Sys.recoversEnded, List.all_eq_true]
  intro k hmem
  obtain ⟨t, ht, hw⟩ := mem_orphans hk.inv.wf.cur hk.inv.ids hmem
  rw [ht, Option.all_some, List.all_eq_true]
  refine fun th hm => decide_eq_true fun hth => hok th hm ?_
  exact Option.some.inj (hth.symm.trans hw)

theorem Live.service (hk : s.Ok reg) (hl : Live s.sys)
    (hok : s.afterThreads record ev = true ∧ s.heartbeatsHold ev = true)
    (h : s.step reg record ev = some s') : Live s'.sys := by
  rcases Service.step_sys h with ⟨e, rfl, hs, -⟩ | ⟨now, body, rfl, hs, -⟩ | ⟨heq | heq, -⟩
  · exact hl.step hk.inv hk.busy hok.2 hs
  · exact hl.step hk.inv hk.busy (cleanup_recoversEnded hk hok.1) hs
  · exact heq ▸ hl
  · exact heq ▸ hl.forget

/-- A cleanup that commits writes no row of a live thread of its record. -/
theorem Service.Cleaning.commit (hk : s.Ok reg) (hc : s.Cleaning record)
    (h : s.step reg record ev = some s') (hcl : s.cleansUp ev = true) {th : Thread}
    (hm : th ∈ s.sys.threads) (hw : th.worker = record) (hl : th.phase ≠ .ended) :
    s'.sys.db.cur.row th.task = s.sys.db.cur.row th.task := by
  unfold Service.cleansUp at hcl
  split at hcl
  · next i =>
    obtain ⟨x, hx, hver⟩ := hc i (of_decide_eq_true hcl)
    simp only [Service.step] at h
    split_ifs at h
    obtain ⟨sys, hs, rfl⟩ := Option.map_eq_some_iff.1 h
    rcases (Sys.step_of_db hs).2.row_change hk.inv.wf th.task with
      hsame | ⟨j, y, o, hj, hy, hlk, -⟩
    · exact hsame
    · -- the row has changed since the snapshot, so it is not locked
      obtain rfl := Event.commit.inj hj
      obtain rfl := Option.some.inj (hx.symm.trans hy)
      have hlt := hver th hm hw hl
      rw [(hk.inv.wf.txn i x hx).unchanged _ hlk] at hlt
      exact absurd hlt (Nat.lt_irrefl _)
  · cases hcl

/-! ## Runs of the service -/

theorem Service.Start.cleaning (h : s.Start) : s.Cleaning record := by
  intro i hi
  rw [h.worker] at hi
  cases hi

/-- **Respawned workers.** In every run in which the startup cleanups begin after the threads of
their record have ended, a cleanup that commits leaves the task of every live thread of the process
as it is. If besides no heartbeat lapses, then no task has two live threads. -/
theorem respawn_safe {s₀ : Service} (h0 : s₀.Start)
    (hp : Path (Service.step reg record) (fun s ev => s.afterThreads record ev = true) s₀ es s) :
    (∀ ev s', s.step reg record ev = some s' → s.cleansUp ev = true →
      ∀ th ∈ s.sys.threads, th.worker = record → th.phase ≠ .ended →
        s'.sys.db.cur.row th.task = s.sys.db.cur.row th.task) ∧
    (Path (Service.step reg record) (fun s ev => s.afterThreads record ev = true ∧
        s.heartbeatsHold ev = true) s₀ es s →
      ∀ th ∈ s.sys.threads, ∀ th' ∈ s.sys.threads, th.phase ≠ .ended → th'.phase ≠ .ended →
        th.task = th'.task → th = th') := by
  have hk : s.Ok reg := hp.inv (fun _ _ _ hk _ h => hk.step h) h0.okay
  refine ⟨fun ev s' h hcl th hm hw hl => ?_, fun hp' => ?_⟩
  · have hc : s.Cleaning record := hp.inv_of (fun _ _ _ hk _ h => hk.step h)
      (fun _ _ _ hk hc hok h => hc.step hk hok h) h0.okay h0.cleaning
    exact hc.commit hk h hcl hm hw hl
  · have hl : Live s.sys := hp'.inv_of (J := Service.Ok reg) (I := fun s => Live s.sys)
      (fun _ _ _ hk _ h => hk.step h) (fun _ _ _ hk hl hok h => hl.service hk hok h) h0.okay
      h0.sys.live
    exact hl.one

/-- A worker is spawned, finds no orphans, and claims the task. -/
def claimedOnce : List ServiceEv := [
  .beat true true, .findOrCreate true, .cleanupOrphanedTasks 90 [], .sys (.db (.commit 0)),
  .sys (.db (.begin (.claimTask (exportClaim 1) id fun _ => 7))), .sys (.db (.lock 1)),
  .sys (.db (.commit 1))]

/-- The database is inactive for some beats, so the worker is respawned. -/
def respawned : List ServiceEv := [
  .beat false false, .onShutdown, .beat false false, .beat true true, .findOrCreate true]

/-- The thread never ran; the next worker requeues its task and claims it again. -/
def killedMeanwhile : List ServiceEv := claimedOnce ++ .sys (.kill 7) :: respawned ++ [
  .cleanupOrphanedTasks 200 [], .sys (.db (.lock 2)), .sys (.db (.commit 2)),
  .sys (.db (.begin (.claimTask (exportClaim 1) id fun _ => 8))), .sys (.db (.lock 3)),
  .sys (.db (.commit 3))]

theorem killedMeanwhile_one_live : ∃ s, Path (Service.step [] 1) (fun s ev =>
      s.afterThreads 1 ev = true ∧ s.heartbeatsHold ev = true) ⟨Sys.init oneTask, none⟩
      killedMeanwhile s ∧ s.sys.threads.map Thread.runner = [8, 7] ∧
    ∀ th ∈ s.sys.threads, ∀ th' ∈ s.sys.threads, th.phase ≠ .ended → th'.phase ≠ .ended →
      th.task = th'.task → th = th' := by
  have hp : Path (Service.step [] 1) (fun s ev => s.afterThreads 1 ev = true ∧
      s.heartbeatsHold ev = true) _ killedMeanwhile _ :=
    path_reached (s := ⟨Sys.init oneTask, none⟩) (by decide +kernel)
  exact ⟨_, hp, rfl,
    (respawn_safe ⟨Start.init (by decide), rfl⟩ (hp.imp fun _ _ h => h.1)).2 hp⟩

/-- The thread executes the task, and goes on when the wait of the shutdown is over. -/
def outlived : List ServiceEv := claimedOnce ++ [
  .sys (.db (.begin (.actionStart 7 1 101))), .sys (.db (.lock 2)), .sys (.db (.commit 2)),
  .sys (.db (.begin (.execute 7 1 102 [] (.returns none))))] ++ respawned ++ [
  .cleanupOrphanedTasks 200 [], .sys (.db (.lock 4))]

def claimedTwice : List ServiceEv := outlived ++ [
  .sys (.db (.commit 4)), .sys (.db (.begin (.claimTask (exportClaim 1) id fun _ => 8))),
  .sys (.db (.lock 5)), .sys (.db (.commit 5))]

/-- The startup cleanup requeues the task of a live thread; no heartbeat has lapsed. The next claim
starts a second thread beside it. -/
theorem outlived_requeued : (∃ s s' th, Path (Service.step [] 1)
      (fun s ev => s.heartbeatsHold ev = true) ⟨Sys.init oneTask, none⟩ outlived s ∧
    s.step [] 1 (.sys (.db (.commit 4))) = some s' ∧ s.cleansUp (.sys (.db (.commit 4))) = true ∧
    th ∈ s.sys.threads ∧ th.worker = 1 ∧ th.phase = .executing ∧
    (s.sys.db.cur.row th.task).map Task.state = some .running ∧
    (s'.sys.db.cur.row th.task).map Task.state = some .pending) ∧
    ∃ s, Path (Service.step [] 1) (fun s ev => s.heartbeatsHold ev = true)
      ⟨Sys.init oneTask, none⟩ claimedTwice s ∧
    s.sys.threads.map (fun th => (th.task, th.phase)) = [(1, .spawned), (1, .executing)] := by
  have hp : Path (Service.step [] 1) (fun s ev => s.heartbeatsHold ev = true) _ outlived _ :=
    path_reached (s := ⟨Sys.init oneTask, none⟩) (by decide +kernel)
  have hp' : Path (Service.step [] 1) (fun s ev => s.heartbeatsHold ev = true) _ claimedTwice _ :=
    path_reached (s := ⟨Sys.init oneTask, none⟩) (by decide +kernel)
  exact ⟨⟨_, _, _, hp, rfl, rfl, List.mem_cons_self, rfl, rfl, rfl, rfl⟩, _, hp', by decide +kernel⟩

end GenericTaskQueue
