import GenericBackground.TaskQueue.Recovery
import GenericBackground.TaskQueue.System
import Mathlib.Algebra.GroupWithZero.Nat
import Mathlib.Algebra.Order.BigOperators.Group.List
import Mathlib.Algebra.Order.Group.Nat

/-!
# Stale workers

The heartbeats of the workers, and `_check_stale_peers`: `check_stale_workers` marks every worker
dead whose heartbeat is older than a minute, then the sweep recovers the tasks of dead workers. The
worker that runs the check is not left out. So its own tasks are safe exactly while its last
heartbeat is at most a minute old (`own_check_safe_iff`).
-/

namespace GenericTaskQueue

open Lts

def heartbeatTimeout : ℕ := 60

/-- The clock and the worker records. -/
structure Cluster where
  clock : ℕ
  workers : List Worker
  nodup : (workers.map Worker.id).Nodup

inductive ClusterEv where
  | elapse (seconds : ℕ)
  | findOrCreate (w : WorkerId)
  | heartbeat (w : WorkerId) (stuck : Bool)
  | checkStaleWorkers (skipped : List WorkerId)
  deriving DecidableEq, Repr

/-! ## The operations on worker records -/

namespace Cluster

def write (s : Cluster) (f : Worker → Worker) : Cluster where
  clock := s.clock
  workers := s.workers.map fun v => { f v with id := v.id }
  nodup := by rw [List.map_map]; exact s.nodup

def heartbeat (s : Cluster) (w : WorkerId) (stuck : Bool) : Cluster :=
  s.write fun v => if v.id = w then
    { v with lastHeartbeat := some s.clock, state := if stuck then .stuck else .active } else v

/-- `find_or_create`: the record of the service on this host is reused. -/
def findOrCreate (s : Cluster) (w : WorkerId) : Cluster :=
  if h : w ∈ s.workers.map Worker.id then s.heartbeat w false
  else ⟨s.clock, { id := w, lastHeartbeat := some s.clock } :: s.workers,
    List.nodup_cons.2 ⟨h, s.nodup⟩⟩

end Cluster

/-- The `WHERE` of `check_stale_workers`; a worker without a heartbeat is not selected. -/
def Worker.stale (now : ℕ) (v : Worker) : Bool :=
  (v.state = .active ∨ v.state = .stuck) ∧ v.lastHeartbeat.any fun h => h + heartbeatTimeout < now

/-- `check_stale_workers`; `skipped` are the records that are locked by others. -/
def Cluster.checkStaleWorkers (s : Cluster) (skipped : List WorkerId) : Cluster :=
  s.write fun v => if v.stale s.clock ∧ v.id ∉ skipped then { v with state := .dead } else v

/-- A heartbeat that fails is no event. -/
def Cluster.step (s : Cluster) : ClusterEv → Option Cluster
  | .elapse d => some { s with clock := s.clock + d }
  | .findOrCreate w => some (s.findOrCreate w)
  | .heartbeat w stuck => some (s.heartbeat w stuck)
  | .checkStaleWorkers skipped => some (s.checkStaleWorkers skipped)

/-- What others do while worker `w` is busy. -/
def ClusterEv.ofPeer (w : WorkerId) : ClusterEv → Bool
  | .findOrCreate v => v ≠ w
  | .heartbeat v _ => v ≠ w
  | _ => true

def ClusterEv.seconds : ClusterEv → ℕ
  | .elapse d => d
  | _ => 0

/-! ## What the check should leave alone -/

/-- The task is in flight under a live thread that worker `w` tracks. -/
def Executing (w : WorkerId) (threads : List Thread) (t : Task) : Prop :=
  t.workerId = some w ∧ t.state ∈ inFlightStates ∧ ∃ th ∈ threads, th.worker = w ∧
    th.task = t.id ∧ t.runnerId = some th.runner ∧ th.tracked = .active ∧ th.phase ≠ .ended

/-- Worker `w` runs `_check_stale_peers`, and its sweep reads the tables `d` seconds after the check
of the heartbeats: its own record and the tasks of its live threads stay as they are. -/
def OwnCheckSafe (s : Cluster) (w : WorkerId) (d : ℕ) : Prop :=
  ∀ skipped others s', (∀ e ∈ others, e.ofPeer w = true) →
    (others.map ClusterEv.seconds).sum = d →
    Path Cluster.step anyStep (s.checkStaleWorkers skipped) others s' →
    (∀ v ∈ s.workers, v.id = w → v ∈ (s.checkStaleWorkers skipped).workers) ∧
      ∀ E hooks raises threads (T : Table), ∀ t ∈ T.rows, Executing w threads t →
        t ∈ (recoverDeadWorkerTasks E hooks raises s'.workers T).rows

/-! ## Heartbeats over a run -/

variable {s s' : Cluster} {e : ClusterEv} {es : List ClusterEv} {v : Worker} {w : WorkerId} {h : ℕ}

theorem stale_iff : v.stale s.clock = true ↔
    (v.state = .active ∨ v.state = .stuck) ∧
      ∃ h, v.lastHeartbeat = some h ∧ h + heartbeatTimeout < s.clock := by
  simp [Worker.stale, Option.any_eq_true]

theorem mem_write {f : Worker → Worker} :
    v ∈ (s.write f).workers ↔ ∃ u ∈ s.workers, v = { f u with id := u.id } := by
  simp [Cluster.write, eq_comm]

theorem mem_write_of_eq {f : Worker → Worker} (hv : v ∈ s.workers) (hf : f v = v) :
    v ∈ (s.write f).workers := mem_write.2 ⟨v, hv, by rw [hf]⟩

/-- A dead worker has not sent a heartbeat for more than a minute. -/
def DeadLapsed (s : Cluster) : Prop :=
  ∀ v ∈ s.workers, v.state = .dead →
    ∃ h, v.lastHeartbeat = some h ∧ h + heartbeatTimeout < s.clock

theorem DeadLapsed.heartbeat (hi : DeadLapsed s) (w : WorkerId) (stuck : Bool) :
    DeadLapsed (s.heartbeat w stuck) := by
  intro v hv hd
  obtain ⟨u, hu, rfl⟩ := mem_write.1 hv
  by_cases huw : u.id = w
  · simp only [huw, if_true] at hd
    cases stuck <;> cases hd
  · simp only [huw, if_false] at hd ⊢
    exact hi u hu hd

theorem DeadLapsed.checkStaleWorkers (hi : DeadLapsed s) (skipped : List WorkerId) :
    DeadLapsed (s.checkStaleWorkers skipped) := by
  intro v hv hd
  obtain ⟨u, hu, rfl⟩ := mem_write.1 hv
  by_cases hst : u.stale s.clock = true ∧ u.id ∉ skipped
  · simp only [if_pos hst]
    exact (stale_iff.1 hst.1).2
  · simp only [if_neg hst] at hd ⊢
    exact hi u hu hd

theorem DeadLapsed.step (hi : DeadLapsed s) (hs : s.step e = some s') : DeadLapsed s' := by
  cases e with
  | elapse d =>
    obtain rfl := Option.some.inj hs
    intro v hv hd
    obtain ⟨h, hh, hlt⟩ := hi v hv hd
    exact ⟨h, hh, by show _ < s.clock + d; omega⟩
  | findOrCreate w =>
    obtain rfl := Option.some.inj hs
    unfold Cluster.findOrCreate
    split_ifs with hw
    · exact hi.heartbeat w false
    · intro v hv hd
      rcases List.mem_cons.1 hv with rfl | hv
      · cases hd
      · exact hi v hv hd
  | heartbeat w stuck =>
    obtain rfl := Option.some.inj hs
    exact hi.heartbeat w stuck
  | checkStaleWorkers skipped =>
    obtain rfl := Option.some.inj hs
    exact hi.checkStaleWorkers skipped

theorem DeadLapsed.path {ok : Cluster → ClusterEv → Prop} (hi : DeadLapsed s)
    (hp : Path Cluster.step ok s es s') : DeadLapsed s' :=
  hp.inv (fun _ _ _ hi _ hs => hi.step hs) hi

theorem step_clock (hs : s.step e = some s') : s'.clock = s.clock + e.seconds := by
  cases e with
  | findOrCreate w =>
    obtain rfl := Option.some.inj hs
    unfold Cluster.findOrCreate
    split_ifs <;> rfl
  | _ => obtain rfl := Option.some.inj hs; rfl

theorem path_clock {ok : Cluster → ClusterEv → Prop} (hp : Path Cluster.step ok s es s') :
    s'.clock = s.clock + (es.map ClusterEv.seconds).sum := by
  induction hp with
  | nil s => simp
  | cons _ hs _ ih =>
    rw [ih, step_clock hs, List.map_cons, List.sum_cons]
    omega

theorem check_keeps (hv : v ∈ s.workers) (hh : v.lastHeartbeat = some h)
    (hc : s.clock ≤ h + heartbeatTimeout) (skipped : List WorkerId) :
    v ∈ (s.checkStaleWorkers skipped).workers := by
  refine mem_write_of_eq hv (if_neg fun hst => ?_)
  obtain ⟨-, h', hh', hlt⟩ := stale_iff.1 hst.1
  obtain rfl := Option.some.inj (hh.symm.trans hh')
  omega

/-- While its heartbeat is at most a minute old, others leave the record of a worker alone. -/
theorem step_keeps (hv : v ∈ s.workers) (hh : v.lastHeartbeat = some h)
    (hc : s.clock ≤ h + heartbeatTimeout) (he : e.ofPeer v.id = true)
    (hs : s.step e = some s') : v ∈ s'.workers := by
  have hbeat : ∀ {w stuck}, w ≠ v.id → v ∈ (s.heartbeat w stuck).workers :=
    fun hw => mem_write_of_eq hv (if_neg (Ne.symm hw))
  cases e with
  | elapse d => obtain rfl := Option.some.inj hs; exact hv
  | findOrCreate w =>
    obtain rfl := Option.some.inj hs
    unfold Cluster.findOrCreate
    split_ifs
    · exact hbeat (of_decide_eq_true he)
    · exact List.mem_cons_of_mem _ hv
  | heartbeat w stuck =>
    obtain rfl := Option.some.inj hs
    exact hbeat (of_decide_eq_true he)
  | checkStaleWorkers skipped =>
    obtain rfl := Option.some.inj hs
    exact check_keeps hv hh hc skipped

theorem path_keeps {ok : Cluster → ClusterEv → Prop} (hp : Path Cluster.step ok s es s')
    (hv : v ∈ s.workers) (hh : v.lastHeartbeat = some h)
    (hc : s'.clock ≤ h + heartbeatTimeout) (he : ∀ e ∈ es, e.ofPeer v.id = true) :
    v ∈ s'.workers := by
  induction hp with
  | nil s => exact hv
  | @cons s s₁ s₂ e es _ hs hp ih =>
    have h1 := step_clock hs
    have h2 := path_clock hp
    have hv₁ := step_keeps hv hh (by omega) (he e List.mem_cons_self) hs
    exact ih hv₁ hc fun e' he' => he e' (List.mem_cons_of_mem e he')

theorem check_kills (hv : v ∈ s.workers) (hh : v.lastHeartbeat = some h)
    (hc : h + heartbeatTimeout < s.clock) :
    { v with state := .dead } ∈ (s.checkStaleWorkers []).workers := by
  refine mem_write.2 ⟨v, hv, ?_⟩
  by_cases hd : v.state = .dead
  · have hst : ¬ (v.stale s.clock = true ∧ v.id ∉ []) := by simp [Worker.stale, hd]
    rw [if_neg hst, ← hd]
  · have hst : v.stale s.clock = true := by
      refine stale_iff.2 ⟨?_, h, hh, hc⟩
      revert hd
      cases v.state <;> simp
    simp [hst]

/-! ## The sweep -/

theorem ofDeadWorker_iff {W : List Worker} {t : Task} : ofDeadWorker W t = true ↔
    ∃ v ∈ W, t.workerId = some v.id ∧ v.state = .dead := by
  simp [ofDeadWorker]

theorem sweep_keeps {E : Env} {hooks : Hooks} {raises : TaskId → Bool} {T : Table} {t : Task}
    (hv : v ∈ s.workers) (hd : v.state ≠ .dead) (ht : t ∈ T.rows) (hw : t.workerId = some v.id) :
    t ∈ (recoverDeadWorkerTasks E hooks raises s.workers T).rows := by
  refine (recoverDeadWorkerTasks_sweeps E hooks raises s.workers T).others t ht fun hi => ?_
  obtain ⟨u, hu, hid⟩ := List.mem_map.1 hi
  obtain ⟨hu, hl⟩ := mem_lostTasks.1 (List.mem_of_mem_take (List.mem_of_mem_filter hu))
  obtain rfl := Table.eq_of_id hu ht hid
  simp only [lost, Bool.and_eq_true, ofDeadWorker_iff] at hl
  obtain ⟨⟨v', hv', hw', hd'⟩, -⟩ := hl
  have hid : v.id = v'.id := Option.some.inj (hw.symm.trans hw')
  rw [List.inj_on_of_nodup_map s.nodup hv hv' hid] at hd
  exact hd hd'

/-- A task of worker `w` in flight, and its thread. -/
def runningTask (w : WorkerId) : Task where
  id := 1
  name := "export"
  typeCode := "export"
  state := .running
  workerId := some w
  runnerId := some 7
  dateCreated := 0
  createUid := 2

def runningThread (w : WorkerId) : Thread :=
  { runner := 7, task := 1, worker := w, phase := .executing }

def runningTable (w : WorkerId) : Table := ⟨[runningTask w], by simp⟩

theorem runningTask_executing (w : WorkerId) :
    Executing w [runningThread w] (runningTask w) :=
  ⟨rfl, by simp [runningTask, inFlightStates], runningThread w, by simp, rfl, rfl, rfl, rfl, nofun⟩

theorem sweep_takes {W : List Worker} (hv : v ∈ W) (hd : v.state = .dead) :
    runningTask v.id ∉ (recoverDeadWorkerTasks ⟨[], [], 0, []⟩ ⟨fun _ => {}, fun _ => {}⟩
      (fun _ => false) W (runningTable v.id)).rows := by
  have hl : lost W (runningTask v.id) = true := by
    simp only [lost, Bool.and_eq_true, ofDeadWorker_iff]
    exact ⟨⟨v, hv, rfl, hd⟩, by simp [runningTask, inFlightStates]⟩
  have hsel : lostTasks W (runningTable v.id) = [runningTask v.id] := by
    simp [lostTasks, Query.select, runningTable, hl]
  have hsw := recoverDeadWorkerTasks_sweeps ⟨[], [], 0, []⟩ ⟨fun _ => {}, fun _ => {}⟩
    (fun _ => false) W (runningTable v.id)
  intro hmem
  obtain ⟨t, ht, hs⟩ := hsw.recovered 1 (by rw [hsel]; exact List.mem_singleton.2 rfl)
  rw [show Table.get _ 1 = _ from Table.mem_iff_get.1 hmem] at ht
  obtain rfl := Option.some.inj ht
  revert hs
  simp [runningTask]

/-- **A worker and its own stale check.** In every run of the cluster, the check of a worker spares
its record and its live tasks exactly if its last heartbeat is at most a minute old when the sweep
reads the tables. -/
theorem own_check_safe_iff {s₀ : Cluster} (h0 : DeadLapsed s₀)
    (hp : Path Cluster.step anyStep s₀ es s) (hv : v ∈ s.workers) (hh : v.lastHeartbeat = some h)
    (d : ℕ) : OwnCheckSafe s v.id d ↔ s.clock + d ≤ h + heartbeatTimeout := by
  constructor
  · intro hsafe
    by_contra hlate
    -- no peer does anything before a minute is over; then one checks
    obtain ⟨s₁, hs₁⟩ : ∃ s₁, (s.checkStaleWorkers []).step (.elapse d) = some s₁ := ⟨_, rfl⟩
    have hpath : Path Cluster.step anyStep (s.checkStaleWorkers [])
        [.elapse d, .checkStaleWorkers []] (s₁.checkStaleWorkers []) :=
      .cons trivial hs₁ (.cons trivial rfl (.nil _))
    obtain ⟨hrec, htask⟩ := hsafe [] _ _ (by simp [ClusterEv.ofPeer])
      (by simp [ClusterEv.seconds]) hpath
    have hv₁ : v ∈ s₁.workers := by
      obtain rfl := Option.some.inj hs₁
      exact hrec v hv rfl
    have hclock : s₁.clock = s.clock + d := step_clock hs₁
    have hdead := check_kills hv₁ hh (by omega)
    exact sweep_takes hdead rfl (htask _ _ _ _ (runningTable v.id) _ List.mem_cons_self
      (runningTask_executing v.id))
  · intro hc skipped others s' hpeers hd hpath
    have hclock := path_clock hpath
    have hsc : (s.checkStaleWorkers skipped).clock = s.clock := rfl
    have hv₁ := check_keeps hv hh (by omega) skipped
    have hv₂ := path_keeps hpath hv₁ hh (by omega) hpeers
    have halive : v.state ≠ .dead := by
      intro hdead
      obtain ⟨h', hh', hlt⟩ := (h0.path hp) v hv hdead
      obtain rfl := Option.some.inj (hh.symm.trans hh')
      omega
    refine ⟨fun u hu hid => ?_, fun E hooks raises threads T t ht hex => ?_⟩
    · rwa [List.inj_on_of_nodup_map s.nodup hu hv hid]
    · exact sweep_keeps hv₂ halive ht hex.1

def emptyCluster : Cluster := ⟨1000, [], List.nodup_nil⟩

/-- A check a minute after the heartbeat, whose sweep follows at once, is safe. -/
theorem fresh_check_safe : ∃ s, Path Cluster.step anyStep emptyCluster
    [.findOrCreate 1, .heartbeat 1 false, .elapse 60] s ∧ OwnCheckSafe s 1 0 := by
  have hp : Path Cluster.step anyStep emptyCluster
      [.findOrCreate 1, .heartbeat 1 false, .elapse 60] _ := path_reached (by decide)
  have h0 : DeadLapsed emptyCluster := fun v hv => absurd hv List.not_mem_nil
  exact ⟨_, hp, (own_check_safe_iff (v := ⟨1, .active, some 1000⟩) h0 hp (by decide) rfl 0).2
    (by decide)⟩

/-- The hooks of the waiting parents take 61 seconds after the heartbeat; then the worker marks
itself dead, and its sweep fails the task that its own thread is executing. -/
theorem slow_cycle_unsafe : ∃ s, Path Cluster.step anyStep emptyCluster
    [.findOrCreate 1, .heartbeat 1 false, .elapse 61] s ∧ ¬ OwnCheckSafe s 1 0 ∧
    ⟨1, .dead, some 1000⟩ ∈ (s.checkStaleWorkers []).workers ∧
    Executing 1 [runningThread 1] (runningTask 1) ∧
    (((recoverDeadWorkerTasks ⟨[], [], s.clock, []⟩ ⟨fun _ => {}, fun _ => {}⟩ (fun _ => false)
      (s.checkStaleWorkers []).workers (runningTable 1)).get 1).map Task.state) =
        some .failed := by
  have hp : Path Cluster.step anyStep emptyCluster
      [.findOrCreate 1, .heartbeat 1 false, .elapse 61] _ := path_reached (by decide)
  refine ⟨_, hp, fun hsafe => ?_, by decide, runningTask_executing 1, by decide⟩
  obtain ⟨hrec, -⟩ := hsafe [] [] _ (by simp) rfl (.nil _)
  exact absurd (hrec ⟨1, .active, some 1000⟩ (by decide) rfl) (by decide)

end GenericTaskQueue
