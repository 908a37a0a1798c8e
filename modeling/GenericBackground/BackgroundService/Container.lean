import GenericBackground.BackgroundService.StopSignal
import GenericBackground.Lib.Drain

/-!
# The container of a service

In worker mode a service runs in a process of its own, in a `ServiceContainerWorker`. Its work
thread goes through the loop of the server's `Worker`: as long as the container is alive it checks
the limits and calls `process_work`, which runs the service. Signals are handled in the main thread
of the process, in between: `signal_handler` and `signal_time_expired_handler` set `alive` and then
stop the service. `request_hard_reload` sets a flag and stops the service; the container sees the
flag once `run` has returned.

The class `Worker` is not part of this repository. The steps rely on three things of it:

1. its loop is `while alive: check_limits(); sleep(); if not alive: break; process_work()`, and an
   exception ends it;
2. its `check_limits` does to `alive` nothing but to clear it, and sets the soft limit of the CPU
   time to the one for HTTP workers;
3. its `signal_handler` clears `alive`; a `SIGINT` is handled like any other signal, so no
   `KeyboardInterrupt` is raised in the work thread.

Whoever stops the service has said before why the process is to end (`Container.Ok.told`), so the
container does not start a service again that it has seen stopped: a process runs its service at
most once, and after a stop its work thread is gone within thirteen steps (`runs_service_once`).

The call of `shutdown_workers` is one of these steps. It waits for the workers, with a timeout for
each, and `ServiceRun.run_stops_workers` says what it does.
-/

namespace GenericBackgroundService

open Lts StopWake

/-- Where the work thread is. -/
inductive ContainerPc where
  | whileAlive
  /-- `was_alive = self.alive`. -/
  | checkLimits
  | superCheckLimits (wasAlive : Bool)
  | resetCpuLimit (wasAlive : Bool)
  | ifLimits (wasAlive : Bool)
  /-- `service.stop()` in `check_limits`, and its second half. -/
  | limitsStop
  | limitsStopReturn
  | ifAlive
  | serviceRun
  | ifHardReload
  | exited
  deriving DecidableEq, Repr

/-- Between `_reset_cpu_limit` and the next `check_limits`. -/
def ContainerPc.budgeted : ContainerPc → Bool
  | .ifLimits _ => true
  | .limitsStop => true
  | .limitsStopReturn => true
  | .ifAlive => true
  | .serviceRun => true
  | .ifHardReload => true
  | _ => false

/-- Seconds of CPU time: the budget of a container, that of an HTTP worker, and the hard limit. -/
structure CpuLimits where
  background : ℕ
  http : ℕ
  hard : Option ℕ

structure Container where
  alive : Bool := true
  hardReloadRequested : Bool := false
  pc : ContainerPc := .whileAlive
  service : State ServicePc := serviceLoop.init
  /-- An exception has left the loop of the service. -/
  failed : Bool := false
  /-- The signal handlers that have cleared `alive` and have not yet stopped the service. -/
  handlers : ℕ := 0
  /-- The calls of `request_hard_reload` that have set the flag and have not yet stopped it. -/
  reloads : ℕ := 0
  /-- How many of their calls of `stop` are half done. -/
  returning : ℕ := 0
  /-- Used CPU time, without its fraction, and the soft limit. -/
  cpu : ℕ := 0
  rlimitCpu : ℕ := 0
  deriving DecidableEq, Repr

inductive ContainerEv where
  /-- The next step of the container's own code in the work thread. -/
  | own
  | superCheckLimits (exceeded : Bool)
  | serviceRun (e : StopWake.Ev ServicePc)
  /-- `shutdown_workers` has joined the workers, and `run` of the service returns. -/
  | shutdownWorkers
  /-- An exception that ends the work thread. -/
  | raise
  | signal
  | signalStop
  | requestHardReload
  | reloadStop
  | stopReturn
  | wakeup
  | cpu (seconds : ℕ)
  deriving DecidableEq, Repr

def ContainerEv.isOwn : ContainerEv → Bool
  | .own => true
  | .superCheckLimits _ => true
  | .serviceRun _ => true
  | .shutdownWorkers => true
  | .raise => true
  | _ => false

/-- The work thread has waited for a timer, or for threads. -/
def ContainerEv.waits : ContainerEv → Bool
  | .serviceRun .timeout => true
  | .shutdownWorkers => true
  | _ => false

def ContainerEv.isRaise : ContainerEv → Bool
  | .serviceRun .raise => true
  | .raise => true
  | _ => false

def CpuLimits.newSoft (L : CpuLimits) (cpu : ℕ) : ℕ :=
  match L.hard with
  | some hard => if hard < cpu + L.background then hard else cpu + L.background
  | none => cpu + L.background

namespace Container

/-- An event of the service's flags and its loop. -/
def onService (c : Container) (e : StopWake.Ev ServicePc) : Option Container :=
  (serviceLoop.step c.service e).map fun st => { c with service := st }

def own (L : CpuLimits) (c : Container) : Option Container :=
  match c.pc with
  | .whileAlive => some { c with pc := if c.alive then .checkLimits else .exited }
  | .checkLimits => some { c with pc := .superCheckLimits c.alive }
  | .superCheckLimits _ => none
  | .resetCpuLimit w => some { c with pc := .ifLimits w, rlimitCpu := L.newSoft c.cpu }
  | .ifLimits w => some { c with pc := if w && !c.alive then .limitsStop else .ifAlive }
  | .limitsStop => { c with pc := .limitsStopReturn }.onService .stopSet
  | .limitsStopReturn => { c with pc := .ifAlive }.onService .stopReturn
  | .ifAlive => some (if c.alive then
      { c with pc := .serviceRun, service := { c.service with pc := serviceLoop.start } }
    else { c with pc := .exited })
  | .serviceRun => none
  | .ifHardReload => some { c with pc := .whileAlive, alive := c.alive && !c.hardReloadRequested }
  | .exited => none

/-- The service can be left by an exception: of its loop, of `initialize`, of `shutdown_workers`. -/
def mayRaise (c : Container) : Bool :=
  match c.pc with
  | .serviceRun => c.service.pc = .shutdownWorkers ∨ c.service.pc = .notStarted
  | .limitsStopReturn => false
  | .exited => false
  | _ => true

def step (L : CpuLimits) (c : Container) : ContainerEv → Option Container
  | .own => c.own L
  | .superCheckLimits exceeded => match c.pc with
    | .superCheckLimits w => some { c with
        pc := .resetCpuLimit w, alive := c.alive && !exceeded, rlimitCpu := c.cpu + L.http }
    | _ => none
  | .serviceRun e =>
    if c.pc = .serviceRun ∧ e.isOwn then
      { c with failed := c.failed || decide (e = Ev.raise) }.onService e
    else none
  | .shutdownWorkers =>
    if c.pc = .serviceRun ∧ c.service.pc = .shutdownWorkers ∧ c.failed = false then
      some { c with pc := .ifHardReload }
    else none
  | .raise => if c.mayRaise then some { c with pc := .exited } else none
  | .signal => some { c with alive := false, handlers := c.handlers + 1 }
  | .signalStop =>
    if 0 < c.handlers then
      { c with handlers := c.handlers - 1, returning := c.returning + 1 }.onService .stopSet
    else none
  | .requestHardReload => some { c with hardReloadRequested := true, reloads := c.reloads + 1 }
  | .reloadStop =>
    if 0 < c.reloads then
      { c with reloads := c.reloads - 1, returning := c.returning + 1 }.onService .stopSet
    else none
  | .stopReturn =>
    if 0 < c.returning then { c with returning := c.returning - 1 }.onService .stopReturn else none
  | .wakeup => c.onService .wakeup
  | .cpu seconds => some { c with cpu := c.cpu + seconds }

/-- `run` of the service is in `shutdown_workers`, or `initialize` has raised. -/
def ending (c : Container) : Prop :=
  c.pc = .serviceRun ∧ (c.service.pc = .shutdownWorkers ∨ c.service.pc = .notStarted)

/-- The soft limit is the budget of a container, from some moment on. -/
def Budgeted (L : CpuLimits) (c : Container) : Prop := ∃ n ≤ c.cpu, c.rlimitCpu = L.newSoft n

def runs (c : Container) (e : ContainerEv) : ℕ :=
  if e = .own ∧ c.pc = .ifAlive ∧ c.alive = true then 1 else 0

def ownSteps (_ : Container) (e : ContainerEv) : ℕ := if e.isOwn then 1 else 0

variable {L : CpuLimits} {c c' : Container} {e : ContainerEv} {es : List ContainerEv}

/-! ## What a step does -/

inductive Move (L : CpuLimits) (c : Container) : ContainerEv → Container → Prop
  | enter (hpc : c.pc = .whileAlive) (ha : c.alive = true) :
    Move L c .own { c with pc := .checkLimits }
  | leave (hpc : c.pc = .whileAlive ∨ c.pc = .ifAlive) (ha : c.alive = false) :
    Move L c .own { c with pc := .exited }
  | wasAlive (hpc : c.pc = .checkLimits) : Move L c .own { c with pc := .superCheckLimits c.alive }
  | limits {w b} (hpc : c.pc = .superCheckLimits w) : Move L c (.superCheckLimits b) { c with
      pc := .resetCpuLimit w, alive := c.alive && !b, rlimitCpu := c.cpu + L.http }
  | reset {w} (hpc : c.pc = .resetCpuLimit w) :
    Move L c .own { c with pc := .ifLimits w, rlimitCpu := L.newSoft c.cpu }
  | exceeded {w} (hpc : c.pc = .ifLimits w) (ha : c.alive = false) :
    Move L c .own { c with pc := .limitsStop }
  | checked {w} (hpc : c.pc = .ifLimits w) : Move L c .own { c with pc := .ifAlive }
  | limitsStop {st} (hpc : c.pc = .limitsStop)
      (hs : serviceLoop.step c.service .stopSet = some st) :
    Move L c .own { c with pc := .limitsStopReturn, service := st }
  | limitsStopReturn {st} (hpc : c.pc = .limitsStopReturn)
      (hs : serviceLoop.step c.service .stopReturn = some st) :
    Move L c .own { c with pc := .ifAlive, service := st }
  | run (hpc : c.pc = .ifAlive) (ha : c.alive = true) : Move L c .own { c with
      pc := .serviceRun, service := { c.service with pc := serviceLoop.start } }
  | service {e st} (hpc : c.pc = .serviceRun) (he : e.isOwn = true)
      (hs : serviceLoop.step c.service e = some st) :
    Move L c (.serviceRun e) { c with
      failed := c.failed || decide (e = Ev.raise), service := st }
  | returned (hpc : c.pc = .serviceRun) (hs : c.service.pc = .shutdownWorkers)
      (hf : c.failed = false) : Move L c .shutdownWorkers { c with pc := .ifHardReload }
  | hardReload (hpc : c.pc = .ifHardReload) : Move L c .own { c with
      pc := .whileAlive, alive := c.alive && !c.hardReloadRequested }
  | raise (hm : c.mayRaise = true) : Move L c .raise { c with pc := .exited }
  | signal : Move L c .signal { c with alive := false, handlers := c.handlers + 1 }
  | signalStop {st} (hn : 0 < c.handlers) (hs : serviceLoop.step c.service .stopSet = some st) :
    Move L c .signalStop { c with
      handlers := c.handlers - 1, returning := c.returning + 1, service := st }
  | requestHardReload : Move L c .requestHardReload { c with
      hardReloadRequested := true, reloads := c.reloads + 1 }
  | reloadStop {st} (hn : 0 < c.reloads) (hs : serviceLoop.step c.service .stopSet = some st) :
    Move L c .reloadStop { c with
      reloads := c.reloads - 1, returning := c.returning + 1, service := st }
  | stopReturn {st} (hn : 0 < c.returning)
      (hs : serviceLoop.step c.service .stopReturn = some st) :
    Move L c .stopReturn { c with returning := c.returning - 1, service := st }
  | wakeup {st} (hs : serviceLoop.step c.service .wakeup = some st) :
    Move L c .wakeup { c with service := st }
  | cpu (n : ℕ) : Move L c (.cpu n) { c with cpu := c.cpu + n }

theorem onService_some {e : StopWake.Ev ServicePc} (h : c.onService e = some c') :
    ∃ st, serviceLoop.step c.service e = some st ∧ c' = { c with service := st } := by
  obtain ⟨st, hst, rfl⟩ := Option.map_eq_some_iff.1 h
  exact ⟨st, hst, rfl⟩

theorem own_move (h : c.own L = some c') : Move L c .own c' := by
  unfold own at h
  split at h
  · next hpc =>
    obtain rfl := Option.some.inj h
    split_ifs with ha
    · exact .enter hpc ha
    · exact .leave (.inl hpc) (Bool.eq_false_iff.2 ha)
  · next hpc => obtain rfl := Option.some.inj h; exact .wasAlive hpc
  · cases h
  · next hpc => obtain rfl := Option.some.inj h; exact .reset hpc
  · next hpc =>
    obtain rfl := Option.some.inj h
    split_ifs with ha
    · simp only [Bool.and_eq_true, Bool.not_eq_true'] at ha
      exact .exceeded hpc ha.2
    · exact .checked hpc
  · next hpc => obtain ⟨st, hst, rfl⟩ := onService_some h; exact .limitsStop hpc hst
  · next hpc => obtain ⟨st, hst, rfl⟩ := onService_some h; exact .limitsStopReturn hpc hst
  · next hpc =>
    obtain rfl := Option.some.inj h
    split_ifs with ha
    · exact .run hpc ha
    · exact .leave (.inr hpc) (Bool.eq_false_iff.2 ha)
  · cases h
  · next hpc => obtain rfl := Option.some.inj h; exact .hardReload hpc
  · cases h

theorem step_move (h : c.step L e = some c') : Move L c e c' := by
  cases e with
  | own => exact own_move h
  | superCheckLimits b =>
    simp only [step] at h
    split at h
    · next w hpc => obtain rfl := Option.some.inj h; exact .limits hpc
    · cases h
  | serviceRun e =>
    simp only [step] at h
    split_ifs at h with hc
    obtain ⟨st, hst, rfl⟩ := onService_some h
    exact .service hc.1 hc.2 hst
  | shutdownWorkers =>
    simp only [step] at h
    split_ifs at h with hc
    obtain rfl := Option.some.inj h
    exact .returned hc.1 hc.2.1 hc.2.2
  | raise =>
    simp only [step] at h
    split_ifs at h with hc
    obtain rfl := Option.some.inj h
    exact .raise hc
  | signal => obtain rfl := Option.some.inj h; exact .signal
  | signalStop =>
    simp only [step] at h
    split_ifs at h with hc
    obtain ⟨st, hst, rfl⟩ := onService_some h
    exact .signalStop hc hst
  | requestHardReload => obtain rfl := Option.some.inj h; exact .requestHardReload
  | reloadStop =>
    simp only [step] at h
    split_ifs at h with hc
    obtain ⟨st, hst, rfl⟩ := onService_some h
    exact .reloadStop hc hst
  | stopReturn =>
    simp only [step] at h
    split_ifs at h with hc
    obtain ⟨st, hst, rfl⟩ := onService_some h
    exact .stopReturn hc hst
  | wakeup => obtain ⟨st, hst, rfl⟩ := onService_some h; exact .wakeup hst
  | cpu n => obtain rfl := Option.some.inj h; exact .cpu n

/-! ## Why it stops -/

theorem stopSet_some {s s' : State ServicePc} (h : serviceLoop.step s .stopSet = some s') :
    s' = { s with stop := true, stopping := s.stopping + 1 } := (Option.some.inj h).symm

/-- The loop of the service comes to `shutdown_workers` by a test of the stop event, or by an
exception. -/
theorem stop_of_left (p : ServicePc) (stop wakeup : Bool) (h : .shutdownWorkers ∈
    (serviceLoop.op p).next stop wakeup ∨ (serviceLoop.op p).expires = some .shutdownWorkers) :
    stop = true := by
  cases stop with
  | true => rfl
  | false =>
    revert h
    cases p with
    | beat b => cases b <;> cases wakeup <;> decide
    | _ => cases wakeup <;> decide

theorem own_service {s s' : State ServicePc} {e : StopWake.Ev ServicePc} (he : e.isOwn = true)
    (h : serviceLoop.step s e = some s') : s'.stop = s.stop ∧ s'.stopping = s.stopping ∧
      (s'.pc = .shutdownWorkers → e ≠ .raise → s.stop = true) := by
  cases e with
  | own p =>
    obtain ⟨hmem, rfl⟩ := Loop.own_some h
    refine ⟨rfl, rfl, fun hp _ => ?_⟩
    have hp : p = .shutdownWorkers := hp
    exact stop_of_left _ _ _ (.inl (hp ▸ hmem))
  | timeout =>
    obtain ⟨p, hp, rfl⟩ := Option.map_eq_some_iff.1 h
    refine ⟨rfl, rfl, fun hpc _ => ?_⟩
    have hpc : p = .shutdownWorkers := hpc
    exact stop_of_left s.pc _ true (.inr (hpc ▸ hp))
  | raise =>
    obtain ⟨p, -, rfl⟩ := Option.map_eq_some_iff.1 h
    exact ⟨rfl, rfl, fun _ hne => absurd rfl hne⟩
  | _ => cases he

structure Ok (c : Container) : Prop where
  told : c.service.stop = true → c.alive = false ∨ c.hardReloadRequested = true
  handlers : 0 < c.handlers → c.alive = false
  reloads : 0 < c.reloads → c.hardReloadRequested = true
  limitsStop : c.pc = .limitsStop → c.alive = false
  stopping : c.service.stopping = c.returning + if c.pc = .limitsStopReturn then 1 else 0
  stopSet : 0 < c.service.stopping → c.service.stop = true
  left : c.pc = .serviceRun → c.service.pc = .shutdownWorkers → c.failed = false →
    c.service.stop = true
  returned : c.pc = .ifHardReload → c.service.stop = true

theorem ok_init : Ok {} where
  told h := by cases h
  handlers h := absurd h (Nat.lt_irrefl 0)
  reloads h := absurd h (Nat.lt_irrefl 0)
  limitsStop h := by cases h
  stopping := rfl
  stopSet h := absurd h (Nat.lt_irrefl 0)
  left h := by cases h
  returned h := by cases h

theorem start_ne_shutdown : serviceLoop.start ≠ ServicePc.shutdownWorkers := by decide

theorem Ok.move (h : Ok c) (hm : Move L c e c') : Ok c' := by
  obtain ⟨h1, h2, h3, h4, h5, h6, h7, h8⟩ := h
  cases hm with
  | enter hpc ha => constructor <;> simp_all
  | leave hpc ha =>
    have hne : c.pc ≠ .limitsStopReturn := by rcases hpc with hpc | hpc <;> simp [hpc]
    constructor <;> simp_all
  | wasAlive hpc => constructor <;> simp_all
  | @limits w b hpc =>
    have hand : c.alive = false → (c.alive && !b) = false := fun ha => by rw [ha]; rfl
    refine ⟨fun hs => (h1 hs).imp_left hand, fun hn => hand (h2 hn), h3, ?_, ?_, h6, ?_, ?_⟩ <;>
      simp_all
  | reset hpc => constructor <;> simp_all
  | exceeded hpc ha => constructor <;> simp_all
  | checked hpc => constructor <;> simp_all
  | limitsStop hpc hs => obtain rfl := stopSet_some hs; constructor <;> simp_all
  | limitsStopReturn hpc hs =>
    obtain ⟨-, rfl⟩ := Loop.stopReturn_some hs
    constructor <;> simp_all
  | run hpc ha => constructor <;> simp_all [start_ne_shutdown]
  | @service e st hpc he hs =>
    obtain ⟨hst, hsp, hleft⟩ := own_service he hs
    constructor <;> simp_all
  | returned hpc hs hf => constructor <;> simp_all
  | hardReload hpc =>
    refine ⟨fun hs => ?_, fun hn => ?_, h3, ?_, ?_, h6, ?_, ?_⟩
    · rcases h1 hs with ha | hf
      · exact .inl (by rw [ha]; rfl)
      · exact .inr hf
    · rw [h2 hn]; rfl
    all_goals simp_all
  | raise hm =>
    have hne : c.pc ≠ .limitsStopReturn := fun hpc => by simp [mayRaise, hpc] at hm
    constructor <;> simp_all
  | signal => constructor <;> simp_all
  | signalStop hn hs => obtain rfl := stopSet_some hs; constructor <;> (simp_all; try omega)
  | requestHardReload => constructor <;> simp_all
  | reloadStop hn hs => obtain rfl := stopSet_some hs; constructor <;> (simp_all; try omega)
  | stopReturn hn hs =>
    obtain ⟨hpos, rfl⟩ := Loop.stopReturn_some hs
    exact ⟨h1, h2, h3, h4, by simp only [h5]; omega, fun hp => h6 hpos, h7, h8⟩
  | wakeup hs => cases hs; constructor <;> simp_all
  | cpu n => constructor <;> simp_all

/-! ## The service runs once -/

/-- How often `run` may still be called. -/
def ahead (c : Container) : ℕ :=
  match c.pc with
  | .serviceRun => 0
  | .ifHardReload => 0
  | .exited => 0
  | _ => if c.alive then 1 else 0

theorem Ok.ended (h : Ok c) (hpc : c.pc = .ifHardReload) :
    (c.alive && !c.hardReloadRequested) = false := by
  rcases h.told (h.returned hpc) with ha | hf
  · rw [ha]; rfl
  · rw [hf, Bool.not_true, Bool.and_false]

theorem Ok.runs_add_ahead (h : Ok c) (hm : Move L c e c') :
    c.runs e + c'.ahead ≤ c.ahead := by
  cases hm with
  | hardReload hpc => simp [runs, ahead, hpc, h.ended hpc]
  | @limits w b hpc =>
    simp only [runs, ahead, hpc]
    cases c.alive <;> cases b <;> simp
  | leave hpc ha => rcases hpc with hpc | hpc <;> simp [runs, ahead, hpc, ha]
  | @checked w hpc => simp [runs, ahead, hpc]
  | signal => cases hpc : c.pc <;> simp [runs, ahead, hpc]
  | _ => simp_all [runs, ahead]

/-! ## It leaves when it is told to -/

/-- How many steps the work thread is from its end at most, once the service has been stopped. -/
def rank (c : Container) : ℕ :=
  match c.pc with
  | .exited => 0
  | .ifHardReload => 2
  | .serviceRun => 3 + c.service.pc.rank
  | .ifAlive => if c.alive then 6 else 1
  | .limitsStopReturn => 7
  | .limitsStop => 8
  | .ifLimits _ => 9
  | .resetCpuLimit _ => 10
  | .superCheckLimits _ => 11
  | .checkLimits => 12
  | .whileAlive => if c.alive then 13 else 1

theorem rank_le : c.rank ≤ 13 := by
  have := c.service.pc.rank_le
  unfold rank
  split <;> (try split_ifs) <;> omega

theorem rank_pos (h : c.pc ≠ .exited) : 0 < c.rank := by
  unfold rank
  split <;> (try split_ifs) <;> first | omega | exact absurd ‹_› h


theorem signalled_move (h : serviceLoop.Signalled c.service) (hm : Move L c e c') :
    serviceLoop.Signalled c'.service := by
  have keep : ∀ {e st}, serviceLoop.step c.service e = some st → serviceLoop.Signalled st :=
    fun hs => serviceLoop_stoppable.signalled_step h hs
  cases hm with
  | run hpc ha =>
    have hne : serviceLoop.start ≠ .wait := by decide
    exact ⟨h.stop, fun hto => absurd (serviceLoop_toWait hto) hne⟩
  | limitsStop _ hs => exact keep hs
  | limitsStopReturn _ hs => exact keep hs
  | service _ _ hs => exact keep hs
  | signalStop _ hs => exact keep hs
  | reloadStop _ hs => exact keep hs
  | stopReturn _ hs => exact keep hs
  | wakeup hs => exact keep hs
  | _ => exact h

theorem rank_other {st : State ServicePc} {e : StopWake.Ev ServicePc} (he : e.isOwn = false)
    (hs : serviceLoop.step c.service e = some st) : st.pc.rank = c.service.pc.rank := by
  rcases Loop.step_cases hs with ⟨hown, -⟩ | ⟨-, hpc, -⟩
  · rw [he] at hown
    cases hown
  · rw [hpc]

theorem Ok.rank_move (h : Ok c) (hsig : serviceLoop.Signalled c.service) (hm : Move L c e c') :
    c.ownSteps e + c'.rank ≤ c.rank := by
  cases hm with
  | leave hpc ha => rcases hpc with hpc | hpc <;> simp [ownSteps, ContainerEv.isOwn, rank, hpc, ha]
  | checked hpc =>
    simp only [ownSteps, ContainerEv.isOwn, rank, hpc]
    split_ifs <;> omega
  | limitsStopReturn hpc hs =>
    simp only [ownSteps, ContainerEv.isOwn, rank, hpc]
    split_ifs <;> omega
  | run hpc ha =>
    simp only [ownSteps, ContainerEv.isOwn, rank, hpc, ha]
    decide
  | @service e st hpc he hs =>
    have hlt : st.pc.rank < c.service.pc.rank := by
      rcases Loop.step_cases hs with ⟨-, hon, -⟩ | ⟨hown, -⟩
      · exact serviceLoop_stoppable.descends _ _ (hon hsig.stop)
      · rw [he] at hown
        cases hown
    simp only [ownSteps, ContainerEv.isOwn, rank, hpc, if_true]
    omega
  | hardReload hpc =>
    simp only [ownSteps, ContainerEv.isOwn, rank, hpc, h.ended hpc]
    decide
  | raise hm =>
    have := rank_pos (c := c) fun hpc => by simp [mayRaise, hpc] at hm
    simp only [ownSteps, ContainerEv.isOwn, if_true]
    exact this
  | signal =>
    cases hpc : c.pc <;> simp [ownSteps, ContainerEv.isOwn, rank, hpc] <;> split_ifs <;> omega
  | signalStop hn hs =>
    simp only [ownSteps, ContainerEv.isOwn, rank, rank_other rfl hs, Bool.false_eq_true, if_false]
    exact Nat.le_of_eq (Nat.zero_add _)
  | reloadStop hn hs =>
    simp only [ownSteps, ContainerEv.isOwn, rank, rank_other rfl hs, Bool.false_eq_true, if_false]
    exact Nat.le_of_eq (Nat.zero_add _)
  | stopReturn hn hs =>
    simp only [ownSteps, ContainerEv.isOwn, rank, rank_other rfl hs, Bool.false_eq_true, if_false]
    exact Nat.le_of_eq (Nat.zero_add _)
  | wakeup hs =>
    simp only [ownSteps, ContainerEv.isOwn, rank, rank_other rfl hs, Bool.false_eq_true, if_false]
    exact Nat.le_of_eq (Nat.zero_add _)
  | returned hpc hs hf => simp [ownSteps, ContainerEv.isOwn, rank, hpc, hs, ServicePc.rank]
  | enter hpc ha => simp [ownSteps, ContainerEv.isOwn, rank, hpc, ha]
  | wasAlive hpc => simp [ownSteps, ContainerEv.isOwn, rank, hpc]
  | limits hpc => simp [ownSteps, ContainerEv.isOwn, rank, hpc]
  | reset hpc => simp [ownSteps, ContainerEv.isOwn, rank, hpc]
  | exceeded hpc => simp [ownSteps, ContainerEv.isOwn, rank, hpc]
  | limitsStop hpc => simp [ownSteps, ContainerEv.isOwn, rank, hpc]
  | requestHardReload => exact Nat.le_of_eq (Nat.zero_add _)
  | cpu n => exact Nat.le_of_eq (Nat.zero_add _)

/-- Once the service has been stopped the work thread can go on, and needs neither a timer nor an
exception for it. -/
theorem Ok.exists_step (h : Ok c) (hsig : serviceLoop.Signalled c.service) (hpc : c.pc ≠ .exited)
    (hend : ¬ c.ending) :
    ∃ e, e.isOwn = true ∧ e.waits = false ∧ e.isRaise = false ∧ (c.step L e).isSome = true := by
  have own : (c.own L).isSome = true →
      ∃ e, e.isOwn = true ∧ e.waits = false ∧ e.isRaise = false ∧ (c.step L e).isSome = true :=
    fun hs => ⟨.own, rfl, rfl, rfl, hs⟩
  cases hc : c.pc with
  | superCheckLimits w =>
    exact ⟨.superCheckLimits false, rfl, rfl, rfl, by simp [step, hc]⟩
  | limitsStopReturn =>
    have hpos : 0 < c.service.stopping := by
      rw [h.stopping, if_pos hc]
      omega
    exact own (by simp [Container.own, hc, onService, Loop.step, hpos])
  | serviceRun =>
    have hop : serviceLoop.op c.service.pc ≠ .exit := ServicePc.op_ne_exit
      (fun hs => hend ⟨hc, .inl hs⟩) fun hs => hend ⟨hc, .inr hs⟩
    obtain ⟨p, st, hst⟩ := serviceLoop_stoppable.exists_step hsig hop
    refine ⟨.serviceRun (.own p), rfl, rfl, rfl, ?_⟩
    have hst : serviceLoop.step { c with
      failed := c.failed || decide (Ev.own p = Ev.raise) }.service (.own p) = some st := hst
    simp [step, hc, onService, hst, Ev.isOwn]
  | exited => exact absurd hc hpc
  | _ => exact own (by simp [Container.own, hc, onService, Loop.step])

theorem budget_move (h : c.pc.budgeted = true → c.Budgeted L) (hm : Move L c e c') :
    c'.pc.budgeted = true → c'.Budgeted L := by
  cases hm with
  | reset hpc => exact fun _ => ⟨c.cpu, Nat.le_refl _, rfl⟩
  | cpu m =>
    intro hb
    obtain ⟨n, hn, hr⟩ := h hb
    exact ⟨n, Nat.le_trans hn (Nat.le_add_right _ _), hr⟩
  | limits hpc => exact fun hb => by cases hb
  | enter hpc => exact fun hb => by cases hb
  | leave hpc => exact fun hb => by cases hb
  | wasAlive hpc => exact fun hb => by cases hb
  | hardReload hpc => exact fun hb => by cases hb
  | raise hm => exact fun hb => by cases hb
  | exceeded hpc => exact fun _ => h (by rw [hpc]; rfl)
  | checked hpc => exact fun _ => h (by rw [hpc]; rfl)
  | limitsStop hpc => exact fun _ => h (by rw [hpc]; rfl)
  | limitsStopReturn hpc => exact fun _ => h (by rw [hpc]; rfl)
  | run hpc => exact fun _ => h (by rw [hpc]; rfl)
  | service hpc => exact fun _ => h (by rw [hpc]; rfl)
  | returned hpc => exact fun _ => h (by rw [hpc]; rfl)
  | _ => exact h

/-- A work thread that is over has found the container not alive, or an exception has ended it. -/
theorem exited_move (h : c.pc = .exited → c.alive = false ∨ .raise ∈ es) (hm : Move L c e c') :
    c'.pc = .exited → c'.alive = false ∨ .raise ∈ es ++ [e] := by
  have keep : c.pc = .exited → c.alive = false ∨ .raise ∈ es ++ [e] :=
    fun hpc => (h hpc).imp_right (List.mem_append_left _)
  cases hm with
  | leave hpc ha => exact fun _ => .inl ha
  | raise hm => exact fun _ => .inr (List.mem_append_right _ List.mem_cons_self)
  | signal => exact fun _ => .inl rfl
  | signalStop => exact keep
  | requestHardReload => exact keep
  | reloadStop => exact keep
  | stopReturn => exact keep
  | wakeup => exact keep
  | cpu n => exact keep
  | service hpc => exact fun hc => by rw [hpc] at hc; cases hc
  | _ => exact fun hc => by cases hc

/-- **A process runs its service once.** Wherever signals, limits and hard reloads come in: the work
thread calls `run` of the service at most once; while it runs, the CPU budget is the container's
own; the thread ends only if the container is not alive any more, or by an exception; and once a
call of `stop` has returned it is over within thirteen steps, none of which needs a timer or an
exception but the end of `run` itself. -/
theorem runs_service_once (hp : Path (step L) anyStep {} es c) :
    total (step L) runs {} es ≤ 1 ∧
    (c.pc = .serviceRun → ∃ n ≤ c.cpu, c.rlimitCpu = L.newSoft n) ∧
    (c.pc = .exited → c.alive = false ∨ .raise ∈ es) ∧
    ∀ c₁, c.step L .stopReturn = some c₁ → ∀ es' c', Path (step L) anyStep c₁ es' c' →
      (c'.pc ≠ .exited → ¬ c'.ending → ∃ e, e.isOwn = true ∧ e.waits = false ∧
        e.isRaise = false ∧ (c'.step L e).isSome = true) ∧
      (13 ≤ total (step L) ownSteps c₁ es' → c'.pc = .exited) := by
  have okStep : ∀ c e c', Ok c → c.step L e = some c' → Ok c' :=
    fun _ _ _ h hs => h.move (step_move hs)
  have hok : Ok c := hp.inv (fun _ _ _ h _ hs => okStep _ _ _ h hs) ok_init
  refine ⟨?_, fun hpc => ?_, ?_, fun c₁ h₁ es' c' hp' => ?_⟩
  · have : total (step L) runs {} es + c.ahead ≤ ahead {} := hp.total_add_le
      (fun _ _ _ h _ hs => ⟨okStep _ _ _ h hs, h.runs_add_ahead (step_move hs)⟩) ok_init
    exact Nat.le_trans (Nat.le_add_right _ _) this
  · have := hp.inv (I := fun c => c.pc.budgeted = true → c.Budgeted L)
      (fun _ _ _ h _ hs => budget_move h (step_move hs)) fun h => by cases h
    exact this (by rw [hpc]; rfl)
  · exact hp.inv_history
      (I := fun (es : List ContainerEv) (c : Container) => c.pc = .exited → c.alive = false ∨
        .raise ∈ es)
      (fun _ _ _ _ _ h _ hs => exited_move h (step_move hs)) fun h => by cases h
  · have hok₁ := okStep _ _ _ hok h₁
    have hsig₁ : serviceLoop.Signalled c₁.service := by
      cases step_move h₁ with
      | stopReturn hn hs =>
        obtain ⟨hpos, rfl⟩ := Loop.stopReturn_some hs
        exact ⟨hok.stopSet hpos, fun _ => rfl⟩
    have both : ∀ c e c', Ok c ∧ serviceLoop.Signalled c.service → c.step L e = some c' →
        Ok c' ∧ serviceLoop.Signalled c'.service :=
      fun _ _ _ h hs => ⟨okStep _ _ _ h.1 hs, signalled_move h.2 (step_move hs)⟩
    obtain ⟨hok', hsig'⟩ := hp'.inv (fun _ _ _ h _ hs => both _ _ _ h hs) ⟨hok₁, hsig₁⟩
    refine ⟨hok'.exists_step hsig', fun hsteps => ?_⟩
    have hrank : total (step L) ownSteps c₁ es' + c'.rank ≤ c₁.rank :=
      hp'.total_add_le (fun _ _ _ h _ hs => ⟨both _ _ _ h hs, h.1.rank_move h.2 (step_move hs)⟩)
        ⟨hok₁, hsig₁⟩
    have hle := c₁.rank_le
    by_contra hpc
    have := rank_pos hpc
    omega

/-- A service requests a hard reload in its first beat, and a signal comes in between. -/
def hardReload : List ContainerEv := [
  .own, .own, .superCheckLimits false, .own, .own, .own, .serviceRun (.own .whileNotStopped),
  .serviceRun (.own .wait), .serviceRun .timeout, .serviceRun (.own .ifStopped),
  .serviceRun (.own (.beat .stopWorkers)), .serviceRun (.own (.beat .cleanWorkers)),
  .requestHardReload, .signal, .cpu 5, .reloadStop]

/-- What is left of the beat, and of the loop of the container. -/
def reloadEnds : List ContainerEv := [
  .signalStop, .serviceRun (.own (.beat .spawnWorkers)), .serviceRun (.own (.beat .checkStuck)),
  .serviceRun (.own .whileNotStopped), .stopReturn, .serviceRun (.own .shutdownWorkers),
  .shutdownWorkers, .own, .own]

theorem hardReload_ends : ∃ c c₁ c', Path (step ⟨3600, 60, none⟩) anyStep {} hardReload c ∧
    total (step ⟨3600, 60, none⟩) runs {} hardReload ≤ 1 ∧ c.rlimitCpu = 3600 ∧
    c.step ⟨3600, 60, none⟩ .stopReturn = some c₁ ∧
    Path (step ⟨3600, 60, none⟩) anyStep c₁ reloadEnds c' ∧ c'.pc = .exited ∧
    (c'.alive = false ∨ .raise ∈ hardReload ++ .stopReturn :: reloadEnds) := by
  have hp : Path (step ⟨3600, 60, none⟩) anyStep {} hardReload (reached _ _ _ _) :=
    path_reached (by decide +kernel)
  have hs : (reached (step ⟨3600, 60, none⟩) anyStep {} hardReload).step ⟨3600, 60, none⟩
      .stopReturn = some (reached (step ⟨3600, 60, none⟩) anyStep {}
        (hardReload ++ [.stopReturn])) := by
    decide +kernel
  have hp' : Path (step ⟨3600, 60, none⟩) anyStep (reached (step ⟨3600, 60, none⟩) anyStep {}
      (hardReload ++ [.stopReturn])) reloadEnds (reached _ _ _ _) :=
    path_reached (by decide +kernel)
  have hpc : (reached (step ⟨3600, 60, none⟩) anyStep (reached (step ⟨3600, 60, none⟩) anyStep {}
      (hardReload ++ [.stopReturn])) reloadEnds).pc = .exited := by
    decide +kernel
  have hall := hp.append (.cons trivial hs hp')
  exact ⟨_, _, _, hp, (runs_service_once hp).1, by decide +kernel, hs, hp', hpc,
    (runs_service_once hall).2.2.1 hpc⟩

end Container

end GenericBackgroundService
