import GenericBackground.Lib.Joins
import Mathlib.Algebra.Order.Ring.Rat
import Mathlib.Tactic.Linarith

/-!
# How long a shutdown takes

Three loops wait for threads, one inside the other. A worker that has left its loop waits for its
task threads, all up to one deadline. A service that has left its loop tells its workers to stop and
joins one after the other. A threaded server tells its services to stop and joins one after the
other. Each of the timeouts leaves 15 seconds more than the one inside, and the loops of workers and
services end soon after they have been told to stop.

Then the timeouts nest: however many services and databases there are, and however long task threads
go on, no join of a worker or of a service times out, and the server has waited for 90 seconds at
most (`shutdown_in_time`).
-/

namespace GenericTaskQueue

open Joins

def shutdownTaskWait : ℚ := 60

def shutdownTimeout : ℚ := shutdownTaskWait + 15

def serviceShutdownTimeout : ℚ := 90

/-- A worker: when it leaves its loop, and when its task threads end, if they do. -/
structure WorkerTimes where
  left : Option ℚ
  tasks : List (Option ℚ)

/-- A service: when it leaves its loop, and its workers. -/
structure ServiceTimes where
  left : Option ℚ
  workers : List WorkerTimes

/-- `_wait_for_task_threads` that begins at `now`. -/
def waitForTaskThreads (timeout : ℚ) (tasks : List (Option ℚ)) (now : ℚ) : ℚ :=
  joinUntil (now + timeout) tasks now

/-- When the thread of a worker ends: `on_shutdown` follows its loop. -/
def WorkerTimes.ends (w : WorkerTimes) : Option ℚ :=
  w.left.map (waitForTaskThreads shutdownTaskWait w.tasks)

/-- `shutdown_workers` that begins at `now`. -/
def shutdownWorkers (workers : List WorkerTimes) (now : ℚ) : ℚ :=
  joinAll shutdownTimeout (workers.map WorkerTimes.ends) now

/-- When the thread of a service ends. -/
def ServiceTimes.ends (v : ServiceTimes) : Option ℚ := v.left.map (shutdownWorkers v.workers)

/-- `threaded_wait_services` that begins at `now`. -/
def threadedWaitServices (services : List ServiceTimes) (now : ℚ) : ℚ :=
  joinAll serviceShutdownTimeout (services.map ServiceTimes.ends) now

/-- The loop is left within 15 seconds of `now`. -/
def LeavesBy (now : ℚ) (left : Option ℚ) : Prop := ∃ t, left = some t ∧ t ≤ now + 15

theorem shutdownTaskWait_nonneg : 0 ≤ shutdownTaskWait := by norm_num [shutdownTaskWait]

theorem shutdownTimeout_nonneg : 0 ≤ shutdownTimeout := by
  norm_num [shutdownTimeout, shutdownTaskWait]

theorem serviceShutdownTimeout_nonneg : 0 ≤ serviceShutdownTimeout := by
  norm_num [serviceShutdownTimeout]

theorem WorkerTimes.ends_within {w : WorkerTimes} {t u : ℚ} (hl : w.left = some t)
    (he : w.ends = some u) :
    t ≤ u ∧ u ≤ t + shutdownTaskWait ∧
      (u < t + shutdownTaskWait → ∀ e ∈ w.tasks, ended e u = true) := by
  obtain rfl : waitForTaskThreads shutdownTaskWait w.tasks t = u := by
    rw [ends, hl] at he
    exact Option.some.inj he
  obtain ⟨h₁, h₂⟩ := joinUntil_within w.tasks
    (le_add_of_nonneg_right shutdownTaskWait_nonneg : t ≤ t + shutdownTaskWait)
  exact ⟨h₁, h₂, joinUntil_ended⟩

/-- The workers of a service, told to stop at `now` or before: no join times out, all of them have
ended when `shutdown_workers` returns, and it returns within its timeout for a single worker. -/
theorem shutdownWorkers_in_time {workers : List WorkerTimes} {now : ℚ}
    (h : ∀ w ∈ workers, LeavesBy now w.left) :
    timeouts shutdownTimeout (workers.map WorkerTimes.ends) now = 0 ∧
      shutdownWorkers workers now ≤ now + shutdownTimeout ∧
      ∀ w ∈ workers, ended w.ends (shutdownWorkers workers now) = true := by
  have key := joinAll_in_time (workers.map WorkerTimes.ends) shutdownTimeout_nonneg
    (le_add_of_nonneg_right shutdownTimeout_nonneg : now ≤ now + shutdownTimeout) (le_refl _)
    (fun e he => by
      obtain ⟨w, hw, rfl⟩ := List.mem_map.1 he
      obtain ⟨t, hl, ht⟩ := h w hw
      have hend : w.ends = some (waitForTaskThreads shutdownTaskWait w.tasks t) := by
        rw [WorkerTimes.ends, hl]; rfl
      refine ended_iff.2 ⟨_, hend, ?_⟩
      have := (WorkerTimes.ends_within hl hend).2.1
      unfold shutdownTimeout
      linarith)
  exact ⟨key.1, key.2.1, fun w hw => key.2.2 _ (List.mem_map_of_mem hw)⟩

/-- **Timeouts nest.** If each service leaves its loop within 15 seconds of the stop, and each of
its workers within 15 seconds of that, then no join of a service or of a worker times out: the
server goes on 90 seconds after the stop at the latest, and by then every service and every worker
has ended. A worker ends before its `SHUTDOWN_TASK_WAIT` is over only if all of its task threads
have ended. In any case the server waits at most 90 seconds for each service. -/
theorem shutdown_in_time (services : List ServiceTimes) (now : ℚ) :
    ((∀ v ∈ services, ∃ t, v.left = some t ∧ t ≤ now + 15 ∧
        ∀ w ∈ v.workers, LeavesBy t w.left) →
      timeouts serviceShutdownTimeout (services.map ServiceTimes.ends) now = 0 ∧
      threadedWaitServices services now ≤ now + serviceShutdownTimeout ∧
      ∀ v ∈ services, ended v.ends (threadedWaitServices services now) = true ∧
        (∀ t, v.left = some t →
          timeouts shutdownTimeout (v.workers.map WorkerTimes.ends) t = 0) ∧
        ∀ w ∈ v.workers, ended w.ends (threadedWaitServices services now) = true) ∧
    (∀ v ∈ services, ∀ w ∈ v.workers, ∀ t u, w.left = some t → w.ends = some u →
      u < t + shutdownTaskWait → ∀ e ∈ w.tasks, ended e u = true) ∧
    threadedWaitServices services now ≤ now + services.length • serviceShutdownTimeout := by
  refine ⟨fun h => ?_, fun v _ w _ t u hl he => (WorkerTimes.ends_within hl he).2.2, ?_⟩
  · -- each service ends within the timeout of its join
    have hends : ∀ v ∈ services, ∃ u, v.ends = some u ∧ u ≤ now + serviceShutdownTimeout ∧
        ∀ w ∈ v.workers, ended w.ends u = true := by
      intro v hv
      obtain ⟨t, hl, ht, hw⟩ := h v hv
      obtain ⟨-, hle, hall⟩ := shutdownWorkers_in_time hw
      refine ⟨shutdownWorkers v.workers t, by rw [ServiceTimes.ends, hl]; rfl, ?_, hall⟩
      have : shutdownTimeout = 75 := by norm_num [shutdownTimeout, shutdownTaskWait]
      unfold serviceShutdownTimeout
      linarith
    obtain ⟨hnone, hle, hall⟩ := joinAll_in_time (services.map ServiceTimes.ends)
      serviceShutdownTimeout_nonneg
      (le_add_of_nonneg_right serviceShutdownTimeout_nonneg)
      (le_refl (now + serviceShutdownTimeout))
      (fun e he => by
        obtain ⟨v, hv, rfl⟩ := List.mem_map.1 he
        obtain ⟨u, hu, hule, -⟩ := hends v hv
        exact ended_iff.2 ⟨u, hu, hule⟩)
    refine ⟨hnone, hle, fun v hv => ?_⟩
    have hv' := hall _ (List.mem_map_of_mem hv)
    obtain ⟨u, hu, -, hw⟩ := hends v hv
    refine ⟨hv', fun t hl => ?_, fun w hwm => ended_mono (hw w hwm) ?_⟩
    · obtain ⟨t', hl', -, hleave⟩ := h v hv
      obtain rfl := Option.some.inj (hl.symm.trans hl')
      exact (shutdownWorkers_in_time hleave).1
    · obtain ⟨u', hu', hule⟩ := ended_iff.1 hv'
      obtain rfl := Option.some.inj (hu.symm.trans hu')
      exact hule
  · have := joinAll_le serviceShutdownTimeout (services.map ServiceTimes.ends) now
    rwa [List.length_map] at this

/-- Two databases; a task thread of the first one hangs. -/
def hangingExport : ServiceTimes where
  left := some 3
  workers := [⟨some 4, [some 10, none]⟩, ⟨some 8, [some 20]⟩]

/-- The server is through after 64 seconds, when the worker of the first database gives up. -/
theorem hangingExport_in_time : threadedWaitServices [hangingExport] 0 = 64 ∧
    threadedWaitServices [hangingExport] 0 ≤ 90 ∧
    ∀ w ∈ hangingExport.workers, ended w.ends (threadedWaitServices [hangingExport] 0) = true := by
  have h : ∀ v ∈ [hangingExport], ∃ t, v.left = some t ∧ t ≤ (0 : ℚ) + 15 ∧
      ∀ w ∈ v.workers, LeavesBy t w.left := by
    intro v hv
    obtain rfl := List.mem_singleton.1 hv
    refine ⟨3, rfl, by norm_num, fun w hw => ?_⟩
    simp only [hangingExport, List.mem_cons, List.not_mem_nil, or_false] at hw
    rcases hw with rfl | rfl
    · exact ⟨4, rfl, by norm_num⟩
    · exact ⟨8, rfl, by norm_num⟩
  obtain ⟨-, hle, hall⟩ := (shutdown_in_time [hangingExport] 0).1 h
  exact ⟨by decide +kernel, by simpa [serviceShutdownTimeout] using hle,
    (hall _ List.mem_cons_self).2.2⟩

end GenericTaskQueue
