import GenericBackground.Lib.StopWake

/-!
# The stop signal

`worker_stop` and `stop` set the stop event and then the wakeup event. The loops `_run` of a worker
and of a service sleep on the wakeup event and clear it afterwards, and test the stop event between
a sleep and the next one. Both loops are instances of `StopWake.Loop`, with each operation on an
event a point of its own.

`stop` may also be called in the service's own thread (`request_hard_reload` does): this is the
order of steps in which both halves of the call come while the loop is at one point.
-/

namespace GenericBackgroundService

open Lts StopWake

/-! ## The loop of a worker -/

inductive WorkerPc where
  | onInit
  /-- `on_error` after a failed `on_init`. -/
  | onInitError
  | whileNotStopped
  /-- The stop event was not set, and `run_service` is about to be called. -/
  | callRunService
  | runService
  | onError
  /-- `get_sleep_timeout`, which `sleep` asks before it waits. -/
  | sleep
  | wait
  | clear
  | onShutdown
  deriving DecidableEq, Repr

/-- `run` of a worker. Where an exception is caught or ends the loop depends on the call that raises
it, so these edges are those of the calls. -/
def workerLoop : Loop WorkerPc where
  start := .onInit
  op
    | .onInit => .act [.whileNotStopped, .onInitError, .onShutdown]
    | .onInitError => .act [.onShutdown]
    | .whileNotStopped => .test .onShutdown .callRunService
    | .callRunService => .act [.runService]
    -- a return, an `Exception`, another exception
    | .runService => .act [.sleep, .onError, .onShutdown]
    | .onError => .act [.sleep, .onShutdown]
    -- a timeout above zero, none, an exception
    | .sleep => .act [.wait, .whileNotStopped, .onShutdown]
    | .wait => .wait .clear
    | .clear => .clear .whileNotStopped
    | .onShutdown => .exit

/-- How many steps a worker is from `on_shutdown` at most, once it has been told to stop. -/
def WorkerPc.rank : WorkerPc → ℕ
  | .onShutdown => 0
  | .onInitError => 1
  | .whileNotStopped => 1
  | .onInit => 2
  | .clear => 2
  | .wait => 3
  | .sleep => 4
  | .onError => 5
  | .runService => 6
  | .callRunService => 7

def WorkerPc.starts : WorkerPc → List Unit
  | .callRunService => [()]
  | _ => []

/-! ## The loop of a service -/

/-- The steps of a beat. -/
inductive BeatStep where
  | stopWorkers
  | cleanWorkers
  | spawnWorkers
  | checkStuck
  deriving DecidableEq, Repr

inductive ServicePc where
  | callInitialize
  /-- `initialize` has raised. The loop is not entered, nor is the `try` around it. -/
  | notStarted
  | whileNotStopped
  | wait
  | clear
  /-- The test of the stop event after the sleep. -/
  | ifStopped
  | beat (b : BeatStep)
  | shutdownWorkers
  deriving DecidableEq, Repr

/-- `run` of a service. It runs in the main thread of a process, where a `KeyboardInterrupt` may
come at any point of the loop. -/
def serviceLoop : Loop ServicePc where
  start := .callInitialize
  op
    | .callInitialize => .act [.whileNotStopped, .notStarted]
    | .notStarted => .exit
    | .whileNotStopped => .test .shutdownWorkers .wait
    | .wait => .wait .clear
    | .clear => .clear .ifStopped
    | .ifStopped => .test .shutdownWorkers (.beat .stopWorkers)
    | .beat .stopWorkers => .act [.beat .cleanWorkers]
    | .beat .cleanWorkers => .act [.beat .spawnWorkers]
    | .beat .spawnWorkers => .act [.beat .checkStuck]
    | .beat .checkStuck => .act [.whileNotStopped]
    | .shutdownWorkers => .exit
  raises
    | .callInitialize => none
    | .notStarted => none
    | .shutdownWorkers => none
    | _ => some .shutdownWorkers

/-- How many steps a service is from `shutdown_workers` at most, once it has been told to stop. -/
def ServicePc.rank : ServicePc → ℕ
  | .shutdownWorkers => 0
  | .notStarted => 0
  | .whileNotStopped => 1
  | .ifStopped => 1
  | .callInitialize => 2
  | .clear => 2
  | .wait => 3
  | .beat .checkStuck => 2
  | .beat .spawnWorkers => 3
  | .beat .cleanWorkers => 4
  | .beat .stopWorkers => 5

/-- `initialize` has ended, and not by an exception. -/
def ServicePc.entered : ServicePc → Bool
  | .callInitialize => false
  | .notStarted => false
  | _ => true

def ServicePc.beatStep : ServicePc → List BeatStep
  | .beat b => [b]
  | _ => []

def ServicePc.beatLeft : ServicePc → List BeatStep
  | .beat .stopWorkers => [.stopWorkers, .cleanWorkers, .spawnWorkers, .checkStuck]
  | .beat .cleanWorkers => [.cleanWorkers, .spawnWorkers, .checkStuck]
  | .beat .spawnWorkers => [.spawnWorkers, .checkStuck]
  | .beat .checkStuck => [.checkStuck]
  | _ => []

/-! ## Both loops stop -/

theorem workerLoop_onward {p q : WorkerPc} (h : workerLoop.Onward p q) :
    q ∈ (workerLoop.op p).next true true := by
  rcases h with h | h
  · exact h
  · cases h

/-- Where a worker may still come to its sleep: within a cycle. -/
def WorkerPc.inCycle : WorkerPc → Bool
  | .callRunService => true
  | .runService => true
  | .onError => true
  | .sleep => true
  | .wait => true
  | _ => false

theorem workerLoop_toWait {p : WorkerPc} (h : workerLoop.ToWait p) : p.inCycle = true := by
  have back : ∀ p : WorkerPc, p.inCycle = false →
      ∀ q ∈ (workerLoop.op p).next true true, q.inCycle = false := by
    intro p
    cases p <;> decide
  induction h with
  | @wait p q h =>
    cases p with
    | wait => rfl
    | _ => cases h
  | @onward p q h _ ih =>
    by_contra hp
    have := back p (Bool.eq_false_iff.2 hp) q (workerLoop_onward h)
    rw [ih] at this
    cases this

theorem workerLoop_stoppable : workerLoop.Stoppable WorkerPc.rank where
  descends p q h := by
    have key : ∀ q ∈ (workerLoop.op p).next true true, q.rank < p.rank := by
      cases p <;> decide
    exact key q (workerLoop_onward h)
  clear p q h hq := by
    have hq := workerLoop_toWait hq
    cases p with
    | clear =>
      cases h
      cases hq
    | _ => cases h
  act p next h := by
    cases p <;> cases h <;> exact List.cons_ne_nil _ _

theorem workerLoop_starts (p q : WorkerPc) (h : workerLoop.Onward p q) :
    p.starts ++ q.starts <+: p.starts := by
  have key : ∀ q ∈ (workerLoop.op p).next true true, q.starts = [] := by
    cases p <;> decide
  rw [key q (workerLoop_onward h), List.append_nil]

theorem WorkerPc.rank_le (p : WorkerPc) : p.rank ≤ 7 := by
  cases p <;> decide

theorem WorkerPc.op_ne_exit {p : WorkerPc} (h : p ≠ .onShutdown) : workerLoop.op p ≠ .exit := by
  cases p with
  | onShutdown => exact absurd rfl h
  | _ => intro h; cases h

/-- Nothing but the wait itself leads a stopped service to a sleep. -/
theorem serviceLoop_toWait {p : ServicePc} (h : serviceLoop.ToWait p) : p = .wait := by
  have back : ∀ p, ServicePc.wait ∉ (serviceLoop.op p).next true true ∧
      serviceLoop.raises p ≠ some .wait := by
    intro p
    cases p with
    | beat b => cases b <;> decide
    | _ => decide
  induction h with
  | @wait p q h =>
    cases p with
    | wait => rfl
    | beat b => cases b <;> cases h
    | _ => cases h
  | @onward p q h _ ih =>
    subst ih
    rcases h with h | h
    · exact absurd h (back p).1
    · exact absurd h (back p).2

theorem serviceLoop_stoppable : serviceLoop.Stoppable ServicePc.rank where
  descends p q h := by
    have key : (∀ q ∈ (serviceLoop.op p).next true true, q.rank < p.rank) ∧
        ∀ q ∈ serviceLoop.raises p, q.rank < p.rank := by
      cases p with
      | beat b => cases b <;> decide
      | _ => decide
    rcases h with h | h
    · exact key.1 q h
    · exact key.2 q h
  clear p q h hq := by
    obtain rfl := serviceLoop_toWait hq
    cases p with
    | beat b => cases b <;> cases h
    | _ => cases h
  act p next h := by
    cases p with
    | beat b => cases b <;> cases h <;> exact List.cons_ne_nil _ _
    | _ => cases h <;> exact List.cons_ne_nil _ _

theorem serviceLoop_beat (p q : ServicePc) (h : serviceLoop.Onward p q) :
    p.beatStep ++ q.beatLeft <+: p.beatLeft := by
  have key : (∀ q ∈ (serviceLoop.op p).next true true, p.beatStep ++ q.beatLeft <+: p.beatLeft) ∧
      ∀ q ∈ serviceLoop.raises p, p.beatStep ++ q.beatLeft <+: p.beatLeft := by
    cases p with
    | beat b => cases b <;> decide
    | _ => decide
  rcases h with h | h
  · exact key.1 q h
  · exact key.2 q h

theorem serviceLoop_entered (p q : ServicePc) (h : serviceLoop.Onward p q)
    (hp : p.entered = true) : q.entered = true := by
  have key : p.entered = true → (∀ q ∈ (serviceLoop.op p).next true true, q.entered = true) ∧
      ∀ q ∈ serviceLoop.raises p, q.entered = true := by
    cases p with
    | beat b => cases b <;> decide
    | _ => decide
  rcases h with h | h
  · exact (key hp).1 q h
  · exact (key hp).2 q h

theorem ServicePc.rank_le (p : ServicePc) : p.rank ≤ 5 := by
  cases p with
  | beat b => cases b <;> decide
  | _ => decide

theorem ServicePc.op_ne_exit {p : ServicePc} (h : p ≠ .shutdownWorkers) (h' : p ≠ .notStarted) :
    serviceLoop.op p ≠ .exit := by
  cases p with
  | shutdownWorkers => exact absurd rfl h
  | notStarted => exact absurd rfl h'
  | beat b => cases b <;> intro h <;> cases h
  | _ => intro h; cases h

/-- **Stop signal.** From the return of a `worker_stop` on, a worker calls `run_service` at most
once more, finds the wakeup event set whenever it sleeps, can always go on without waiting for a
timeout, and is in `on_shutdown` after at most seven steps of its own; exceptions of `run_service`
and `on_error` among them. From the return of a `stop` on, a service performs at most what is left
of its beat, sleeps and goes on likewise, and is in `shutdown_workers` after at most five steps; the
loop of a service whose `initialize` raises is never entered. -/
theorem stop_signal_not_lost :
    (∀ s es t, workerLoop.Returned s → Path workerLoop.step anyStep s es t →
      (emitted workerLoop.step (Loop.doing WorkerPc.starts) s es).length ≤ 1 ∧
      (t.pc = .wait → t.wakeup = true) ∧
      (t.pc ≠ .onShutdown → ∃ p t', workerLoop.step t (.own p) = some t') ∧
      (7 ≤ total workerLoop.step Loop.ownSteps s es → t.pc = .onShutdown)) ∧
    ∀ s es t, serviceLoop.Returned s → Path serviceLoop.step anyStep s es t →
      emitted serviceLoop.step (Loop.doing ServicePc.beatStep) s es <+: s.pc.beatLeft ∧
      (t.pc = .wait → t.wakeup = true) ∧
      (t.pc ≠ .shutdownWorkers → t.pc ≠ .notStarted →
        ∃ p t', serviceLoop.step t (.own p) = some t') ∧
      (5 ≤ total serviceLoop.step Loop.ownSteps s es →
        t.pc = .shutdownWorkers ∨ t.pc = .notStarted) ∧
      (s.pc.entered = true → t.pc ≠ .notStarted) := by
  refine ⟨fun s es t hr hp => ?_, fun s es t hr hp => ?_⟩
  · have hs := hr.signalled
    have ht := workerLoop_stoppable.signalled hs hp
    refine ⟨?_, fun hpc => ht.wakeup ?_, fun hpc => ?_, fun hsteps => ?_⟩
    · -- one call ahead of it at most
      have hpre := workerLoop_stoppable.emitted_prefix workerLoop_starts hs hp
      have hlen : s.pc.starts.length ≤ 1 := by cases s.pc <;> decide
      have := hpre.length_le
      rw [List.length_append] at this
      omega
    · rw [hpc]
      exact .wait (q := .clear) rfl
    · exact workerLoop_stoppable.exists_step ht (WorkerPc.op_ne_exit hpc)
    · have hrank := workerLoop_stoppable.steps_add_rank_le hs hp
      have hle := s.pc.rank_le
      have h0 : t.pc.rank = 0 := by omega
      cases hpc : t.pc with
      | onShutdown => rfl
      | _ => rw [hpc] at h0; cases h0
  · have hs := hr.signalled
    have ht := serviceLoop_stoppable.signalled hs hp
    refine ⟨?_, fun hpc => ht.wakeup ?_, fun hpc hpc' => ?_, fun hsteps => ?_, fun hent hpc => ?_⟩
    · exact (List.prefix_append _ _).trans
        (serviceLoop_stoppable.emitted_prefix serviceLoop_beat hs hp)
    · rw [hpc]
      exact .wait (q := .clear) rfl
    · exact serviceLoop_stoppable.exists_step ht (ServicePc.op_ne_exit hpc hpc')
    · have hrank := serviceLoop_stoppable.steps_add_rank_le hs hp
      have hle := s.pc.rank_le
      have h0 : t.pc.rank = 0 := by omega
      cases hpc : t.pc with
      | shutdownWorkers => exact .inl rfl
      | notStarted => exact .inr rfl
      | beat b => rw [hpc] at h0; cases b <;> cases h0
      | _ => rw [hpc] at h0; cases h0
    · have := serviceLoop_stoppable.pc_inv serviceLoop_entered hs hp hent
      rw [hpc] at this
      cases this

/-! ## A stop between the test and the call -/

/-- A worker that has tested the stop event when `worker_stop` is called. -/
def stoppedAfterTest : State WorkerPc :=
  reached workerLoop.step anyStep workerLoop.init
    [.own .whileNotStopped, .own .callRunService, .stopSet, .stopReturn]

/-- It calls `run_service`, which raises, and does not block in its sleep. -/
def lastCycle : List (Ev WorkerPc) :=
  [.own .runService, .own .onError, .own .sleep, .own .wait, .own .clear, .own .whileNotStopped,
    .own .onShutdown]

theorem lastCycle_ends :
    emitted workerLoop.step (Loop.doing WorkerPc.starts) stoppedAfterTest lastCycle = [()] ∧
    (reached workerLoop.step anyStep stoppedAfterTest lastCycle).pc = .onShutdown := by
  have hr : workerLoop.Returned stoppedAfterTest :=
    ⟨[.own .whileNotStopped, .own .callRunService, .stopSet], _,
      path_reached (by decide +kernel), step_reached (by decide +kernel)⟩
  have hp : Path workerLoop.step anyStep stoppedAfterTest lastCycle
      (reached workerLoop.step anyStep stoppedAfterTest lastCycle) :=
    path_reached (by decide +kernel)
  exact ⟨by decide +kernel, (stop_signal_not_lost.1 _ _ _ hr hp).2.2.2 (by decide +kernel)⟩

end GenericBackgroundService
