import GenericBackground.Lib.Path
import GenericBackground.TaskQueue.Task
import Mathlib.Data.List.Basic

/-!
# The slots of a worker

A worker tracks the threads that it has spawned in `_active_tasks`, at most one for each of its
slots. One cycle of `run_service` rebuilds the list (`_finalize_completed`), sets flags in it
(`_check_timeouts`) and appends to it (`_claim_and_spawn`), while the threads end when they like.
`is_stuck` counts the part of the list that has timed out and is still alive.

The steps are those of the worker's own thread, one access to the list or to a thread at a time. A
cycle may be left at any of them by an exception. `on_shutdown`, which forgets the threads that it
has not waited for, is no part of a cycle.
-/

namespace GenericTaskQueue

open Lts

namespace Slots

inductive ThreadLife where
  | created
  | alive
  | ended
  deriving DecidableEq, Repr

/-- `_TaskThread`, with the life of its thread. -/
structure TaskThread where
  taskId : TaskId
  startTime : ℤ
  timeout : ℤ
  timedOut : Bool := false
  runnerId : Option RunnerId
  life : ThreadLife := .created
  deriving DecidableEq, Repr

/-- What `_claim_and_spawn` reads of a claimed task. -/
structure TaskData where
  taskId : TaskId
  timeout : ℤ
  runnerId : Option RunnerId
  deriving DecidableEq, Repr

/-- Where the worker is in `run_service`. A loop keeps what it has still to go through. -/
inductive Pc where
  | idle
  | doHeartbeat
  | finalizeCompleted (todo stillActive resolvedStuck : List ℕ)
  | handleResolvedStuckThreads (todo : List ℕ)
  | checkTimeouts
  | timeouts (now : ℤ) (todo : List ℕ)
  | timeoutTask (i : ℕ) (now : ℤ) (todo : List ℕ)
  | checkWaitingParents
  | autoRetryFailed
  | checkStalePeers
  | freeSlots
  | claim (limit : ℤ)
  | spawn (taskData : List TaskData)
  | start (i : ℕ) (taskData : List TaskData)
  deriving DecidableEq, Repr

/-- The slots that are spoken for: those that a claim may fill, or has filled. -/
def Pc.reserved : Pc → ℤ
  | .claim limit => limit
  | .spawn taskData => taskData.length
  | .start _ taskData => taskData.length
  | _ => 0

/-- The threads that the worker has ever created, and the positions of those in `_active_tasks`. -/
structure Worker where
  threads : List TaskThread := []
  activeTasks : List ℕ := []
  pc : Pc := .idle
  deriving DecidableEq, Repr

inductive WorkerEv where
  /-- The next statement, if it asks nothing outside; at `thread.start()` the thread starts. -/
  | tick
  /-- The next statement, which reads the clock. -/
  | clock (now : ℤ)
  | claimed (taskData : List TaskData)
  | claimError
  /-- An exception leaves `run_service`. -/
  | raised
  | threadEnds (i : ℕ)
  deriving DecidableEq, Repr

namespace Worker

def isAlive (s : Worker) (i : ℕ) : Bool := s.threads[i]?.any (·.life = .alive)

def isTimedOut (s : Worker) (i : ℕ) : Bool := s.threads[i]?.any TaskThread.timedOut

def isOverdue (s : Worker) (now : ℤ) (i : ℕ) : Bool := s.threads[i]?.any fun t =>
  !t.timedOut && 0 < t.timeout && t.timeout < now - t.startTime

def isStuck (maxParallelJobs : ℤ) (s : Worker) : Bool :=
  !s.activeTasks.isEmpty &&
    maxParallelJobs ≤ (s.activeTasks.countP fun i => s.isTimedOut i && s.isAlive i : ℕ)

def tick (maxParallelJobs : ℤ) (s : Worker) : Option Worker :=
  match s.pc with
  | .idle => some { s with pc := .doHeartbeat }
  | .doHeartbeat => some { s with pc := .finalizeCompleted s.activeTasks [] [] }
  | .finalizeCompleted (i :: todo) stillActive resolvedStuck =>
    if s.isAlive i then
      some { s with pc := .finalizeCompleted todo (stillActive ++ [i]) resolvedStuck }
    else if s.isTimedOut i then
      some { s with pc := .finalizeCompleted todo stillActive (resolvedStuck ++ [i]) }
    else some { s with pc := .finalizeCompleted todo stillActive resolvedStuck }
  | .finalizeCompleted [] stillActive resolvedStuck =>
    some { s with activeTasks := stillActive, pc := .handleResolvedStuckThreads resolvedStuck }
  | .handleResolvedStuckThreads (_ :: todo) =>
    some { s with pc := .handleResolvedStuckThreads todo }
  | .handleResolvedStuckThreads [] => some { s with pc := .checkTimeouts }
  | .timeouts now (i :: todo) =>
    if s.isOverdue now i then some { s with pc := .timeoutTask i now todo }
    else some { s with pc := .timeouts now todo }
  | .timeouts _ [] => some { s with pc := .checkWaitingParents }
  | .timeoutTask i now todo => some { s with
      threads := s.threads.modify i fun t => { t with timedOut := true }
      pc := .timeouts now todo }
  | .checkWaitingParents => some { s with pc := .autoRetryFailed }
  | .autoRetryFailed => some { s with pc := .checkStalePeers }
  | .checkStalePeers => some { s with pc := .freeSlots }
  | .freeSlots =>
    if 0 < maxParallelJobs - s.activeTasks.length then
      some { s with pc := .claim (maxParallelJobs - s.activeTasks.length) }
    else some { s with pc := .idle }
  | .spawn [] => some { s with pc := .idle }
  | .start i taskData => some { s with
      threads := s.threads.modify i fun t => { t with life := .alive }
      pc := .spawn taskData }
  | _ => none

/-- `_spawn_task_thread`, up to `thread.start()`. -/
def spawnTaskThread (s : Worker) (now : ℤ) (d : TaskData) (taskData : List TaskData) : Worker where
  threads := s.threads ++
    [{ taskId := d.taskId, startTime := now, timeout := d.timeout, runnerId := d.runnerId }]
  activeTasks := s.activeTasks ++ [s.threads.length]
  pc := .start s.threads.length taskData

def step (maxParallelJobs : ℤ) (s : Worker) : WorkerEv → Option Worker
  | .tick => s.tick maxParallelJobs
  | .clock now => match s.pc with
    | .checkTimeouts => some { s with pc := .timeouts now s.activeTasks }
    | .spawn (d :: taskData) => some (s.spawnTaskThread now d taskData)
    | _ => none
  | .claimed taskData => match s.pc with
    | .claim limit =>
      if taskData.length ≤ limit then some { s with pc := .spawn taskData } else none
    | _ => none
  | .claimError => match s.pc with
    | .claim _ => some { s with pc := .idle }
    | _ => none
  | .raised => if s.pc = .idle then none else some { s with pc := .idle }
  | .threadEnds i =>
    if s.isAlive i then
      some { s with threads := s.threads.modify i fun t => { t with life := .ended } }
    else none

variable {maxParallelJobs : ℤ} {s s' : Worker} {e : WorkerEv} {es : List WorkerEv} {i j : ℕ}

/-! ## Which threads are alive -/

theorem isAlive_modify {f : TaskThread → TaskThread} {ts : List ℕ} {pc : Pc} :
    isAlive ⟨s.threads.modify i f, ts, pc⟩ j =
      if i = j then s.threads[j]?.any fun t => (f t).life = .alive else s.isAlive j := by
  unfold isAlive
  rw [List.getElem?_modify]
  split_ifs with h <;> cases s.threads[j]? <;> rfl

theorem isAlive_of_modify {f : TaskThread → TaskThread} {ts : List ℕ} {pc : Pc}
    (hf : ∀ t, (f t).life = .alive → t.life = .alive)
    (h : isAlive ⟨s.threads.modify i f, ts, pc⟩ j = true) : s.isAlive j = true := by
  rw [isAlive_modify] at h
  split_ifs at h with hij
  · unfold isAlive
    rw [Option.any_eq_true] at h ⊢
    obtain ⟨t, ht, hl⟩ := h
    exact ⟨t, ht, decide_eq_true (hf t (of_decide_eq_true hl))⟩
  · exact h

theorem isAlive_spawn {now : ℤ} {d : TaskData} {taskData : List TaskData} :
    (s.spawnTaskThread now d taskData).isAlive j = s.isAlive j := by
  unfold isAlive spawnTaskThread
  dsimp only
  rw [List.getElem?_append]
  split_ifs with h
  · rfl
  · rw [List.getElem?_eq_none (Nat.le_of_not_lt h)]
    cases hk : j - s.threads.length with
    | zero => rfl
    | succ k => rfl

/-! ## The invariant -/

/-- Where the worker is, it relies on: of the threads that it has looked at, those still alive are
in the new list; it claims only if a slot is free; the thread that it starts is tracked. -/
def PcOk (s : Worker) : Pc → Prop
  | .finalizeCompleted todo stillActive _ => ∃ done, s.activeTasks = done ++ todo ∧
      stillActive.Sublist done ∧ ∀ i ∈ done, s.isAlive i = true → i ∈ stillActive
  | .claim limit => 0 < limit
  | .start i _ => i ∈ s.activeTasks
  | _ => True

/-- The invariant of a worker: live threads are tracked, and the tracked threads and those that are
being claimed have slots. -/
structure Inv (maxParallelJobs : ℤ) (s : Worker) : Prop where
  tracked : ∀ i, s.isAlive i = true → i ∈ s.activeTasks
  slots : s.activeTasks.length + s.pc.reserved ≤ max maxParallelJobs 0
  pc : s.PcOk s.pc

theorem Inv.goto (h : Inv maxParallelJobs s) {pc : Pc} (hr : pc.reserved ≤ s.pc.reserved)
    (hpc : s.PcOk pc) : Inv maxParallelJobs { s with pc := pc } where
  tracked := h.tracked
  slots := Int.le_trans (Int.add_le_add_left hr _) h.slots
  pc := by
    cases pc with
    | finalizeCompleted todo stillActive resolvedStuck => exact hpc
    | _ => exact hpc

theorem reserved_nonneg (h : Inv maxParallelJobs s) : 0 ≤ s.pc.reserved := by
  have hpc := h.pc
  cases hs : s.pc with
  | claim limit => rw [hs] at hpc; exact Int.le_of_lt hpc
  | spawn taskData => exact Int.natCast_nonneg _
  | start i taskData => exact Int.natCast_nonneg _
  | _ => exact Int.le_refl 0

theorem Inv.idle (h : Inv maxParallelJobs s) {pc : Pc} (hr : pc.reserved = 0)
    (hpc : s.PcOk pc) : Inv maxParallelJobs { s with pc := pc } := by
  refine h.goto ?_ hpc
  rw [hr]
  exact reserved_nonneg h

theorem PcOk.threads {ts : List TaskThread} {pc : Pc} (hpc : s.PcOk s.pc) (hs : s.pc = pc)
    (hal : ∀ i, isAlive ⟨ts, s.activeTasks, pc⟩ i = true → s.isAlive i = true) :
    PcOk ⟨ts, s.activeTasks, pc⟩ pc := by
  rw [hs] at hpc
  cases pc with
  | finalizeCompleted todo stillActive resolvedStuck =>
    obtain ⟨done, hdone, hsub, hall⟩ := hpc
    exact ⟨done, hdone, hsub, fun i hi ha => hall i hi (hal i ha)⟩
  | _ => exact hpc

theorem Inv.claims (h : Inv maxParallelJobs s)
    (hfree : 0 < maxParallelJobs - s.activeTasks.length) :
    Inv maxParallelJobs { s with pc := .claim (maxParallelJobs - s.activeTasks.length) } where
  tracked := h.tracked
  slots := by
    show (s.activeTasks.length : ℤ) + (maxParallelJobs - s.activeTasks.length) ≤ _
    omega
  pc := hfree

/-- The thread is tracked before it is started. -/
theorem Inv.spawns (h : Inv maxParallelJobs s) {now : ℤ} {d : TaskData} {taskData : List TaskData}
    (hpc : s.pc = .spawn (d :: taskData)) :
    Inv maxParallelJobs (s.spawnTaskThread now d taskData) where
  tracked i hi := by
    rw [isAlive_spawn] at hi
    exact List.mem_append_left _ (h.tracked i hi)
  slots := by
    have hs := h.slots
    rw [hpc] at hs
    simp only [Pc.reserved, spawnTaskThread, List.length_append, List.length_cons,
      List.length_nil] at hs ⊢
    omega
  pc := List.mem_append_right _ (List.mem_singleton_self _)

theorem Inv.starts (h : Inv maxParallelJobs s) {taskData : List TaskData}
    (hpc : s.pc = .start i taskData) : Inv maxParallelJobs { s with
      threads := s.threads.modify i fun t => { t with life := .alive }
      pc := .spawn taskData } where
  tracked j hj := by
    rw [isAlive_modify] at hj
    split_ifs at hj with hij
    · have hi := h.pc
      rw [hpc] at hi
      exact hij ▸ hi
    · exact h.tracked j hj
  slots := by
    have hs := h.slots
    rw [hpc] at hs
    exact hs
  pc := trivial

theorem Inv.quiet (h : Inv maxParallelJobs s) {f : TaskThread → TaskThread} {pc : Pc}
    (hf : ∀ t, (f t).life = .alive → t.life = .alive) (hr : pc.reserved ≤ s.pc.reserved)
    (hpc : PcOk ⟨s.threads.modify i f, s.activeTasks, pc⟩ pc) :
    Inv maxParallelJobs { s with threads := s.threads.modify i f, pc := pc } where
  tracked j hj := h.tracked j (isAlive_of_modify hf hj)
  slots := Int.le_trans (Int.add_le_add_left hr _) h.slots
  pc := hpc

theorem Inv.looked (h : Inv maxParallelJobs s) {todo still still' res res' : List ℕ}
    (hpc : s.pc = .finalizeCompleted (i :: todo) still res)
    (hstill : (s.isAlive i = true ∧ still' = still ++ [i]) ∨
      (¬ s.isAlive i = true ∧ still' = still)) :
    Inv maxParallelJobs { s with pc := .finalizeCompleted todo still' res' } := by
  have hok := h.pc
  rw [hpc] at hok
  obtain ⟨done, hdone, hsub, hall⟩ := hok
  refine h.idle rfl ⟨done ++ [i], by simp [hdone], ?_, ?_⟩
  · rcases hstill with ⟨-, rfl⟩ | ⟨-, rfl⟩
    · exact hsub.append (List.Sublist.refl _)
    · exact hsub.trans (List.sublist_append_left _ _)
  · intro j hj ha
    rcases List.mem_append.1 hj with hj | hj
    · have hold := hall j hj ha
      rcases hstill with ⟨-, rfl⟩ | ⟨-, rfl⟩
      · exact List.mem_append_left _ hold
      · exact hold
    · rw [List.mem_singleton.1 hj] at ha ⊢
      rcases hstill with ⟨-, rfl⟩ | ⟨hn, -⟩
      · exact List.mem_append_right _ (List.mem_singleton_self _)
      · exact absurd ha hn

/-- The new list of `_finalize_completed` has every thread that is alive. -/
theorem Inv.finalized (h : Inv maxParallelJobs s) {still res : List ℕ}
    (hpc : s.pc = .finalizeCompleted [] still res) :
    Inv maxParallelJobs { s with activeTasks := still, pc := .handleResolvedStuckThreads res } := by
  have hok := h.pc
  have hslots := h.slots
  rw [hpc] at hok hslots
  obtain ⟨done, hdone, hsub, hall⟩ := hok
  rw [List.append_nil] at hdone
  have hlen := hsub.length_le
  refine ⟨fun j hj => hall j (hdone ▸ h.tracked j hj) hj, ?_, trivial⟩
  simp only [Pc.reserved, hdone] at hslots ⊢
  omega

/-- **Step** of the worker itself. -/
theorem Inv.tick (h : Inv maxParallelJobs s) (hs : s.tick maxParallelJobs = some s') :
    Inv maxParallelJobs s' := by
  unfold Worker.tick at hs
  cases hpc : s.pc with
  | idle | checkWaitingParents | autoRetryFailed | checkStalePeers =>
    simp only [hpc] at hs
    cases hs
    exact h.idle rfl trivial
  | doHeartbeat =>
    simp only [hpc] at hs
    cases hs
    exact h.idle rfl ⟨[], rfl, List.Sublist.refl _, List.forall_mem_nil _⟩
  | finalizeCompleted todo stillActive resolvedStuck =>
    cases todo with
    | cons i todo =>
      simp only [hpc] at hs
      split_ifs at hs with ha ht
      · cases hs
        exact h.looked hpc (.inl ⟨ha, rfl⟩)
      · cases hs
        exact h.looked hpc (.inr ⟨ha, rfl⟩)
      · cases hs
        exact h.looked hpc (.inr ⟨ha, rfl⟩)
    | nil =>
      simp only [hpc] at hs
      cases hs
      exact h.finalized hpc
  | handleResolvedStuckThreads todo =>
    cases todo <;> simp only [hpc] at hs <;> cases hs <;> exact h.idle rfl trivial
  | timeouts now todo =>
    cases todo with
    | cons i todo =>
      simp only [hpc] at hs
      split_ifs at hs
      · cases hs
        exact h.idle rfl trivial
      · cases hs
        exact h.idle rfl trivial
    | nil =>
      simp only [hpc] at hs
      cases hs
      exact h.idle rfl trivial
  | timeoutTask i now todo =>
    -- marking a thread as timed out brings none to life
    simp only [hpc] at hs
    cases hs
    exact h.quiet (fun _ hl => hl) (by rw [hpc]; exact Int.le_refl 0) trivial
  | freeSlots =>
    simp only [hpc] at hs
    split_ifs at hs with hfree
    · cases hs
      exact h.claims hfree
    · cases hs
      exact h.idle rfl trivial
  | spawn taskData =>
    cases taskData with
    | nil =>
      simp only [hpc] at hs
      cases hs
      exact h.idle rfl trivial
    | cons d taskData => simp only [hpc] at hs; cases hs
  | start i taskData =>
    simp only [hpc] at hs
    cases hs
    exact h.starts hpc
  | checkTimeouts | claim _ => simp only [hpc] at hs; cases hs

/-- **Step.** -/
theorem Inv.step (h : Inv maxParallelJobs s) (hs : s.step maxParallelJobs e = some s') :
    Inv maxParallelJobs s' := by
  cases e with
  | tick => exact h.tick hs
  | clock now =>
    simp only [Worker.step] at hs
    split at hs
    · cases hs
      exact h.idle rfl trivial
    · next hpc =>
      cases hs
      exact h.spawns hpc
    · cases hs
  | claimed taskData =>
    simp only [Worker.step] at hs
    split at hs
    · next limit hpc =>
      split_ifs at hs with hle
      cases hs
      exact h.goto (by rw [hpc]; exact hle) trivial
    · cases hs
  | claimError =>
    simp only [Worker.step] at hs
    split at hs
    · cases hs
      exact h.idle rfl trivial
    · cases hs
  | raised =>
    simp only [Worker.step] at hs
    split_ifs at hs
    cases hs
    exact h.idle rfl trivial
  | threadEnds i =>
    simp only [Worker.step] at hs
    split_ifs at hs
    cases hs
    have hno : ∀ t : TaskThread, ThreadLife.ended = .alive → t.life = .alive := by
      intro t ht
      cases ht
    exact h.quiet hno (Int.le_refl s.pc.reserved)
      (h.pc.threads rfl fun j hj => isAlive_of_modify hno hj)

theorem Inv.init (maxParallelJobs : ℤ) : Inv maxParallelJobs {} where
  tracked i hi := by simp [isAlive] at hi
  slots := by
    show (0 : ℤ) + 0 ≤ _
    omega
  pc := trivial

/-- **Slots.** In every state of every sequence of cycles the worker tracks no more threads than it
has slots, and every thread that is alive. When it is stuck there is no free slot, and no claim is
under way. -/
theorem slot_accounting (hp : Path (Worker.step maxParallelJobs) anyStep {} es s) :
    (s.activeTasks.length : ℤ) ≤ max maxParallelJobs 0 ∧
    (∀ i, s.isAlive i = true → i ∈ s.activeTasks) ∧
    (s.isStuck maxParallelJobs = true → maxParallelJobs - s.activeTasks.length ≤ 0 ∧
      s.pc.reserved = 0 ∧ ∀ taskData, s.step maxParallelJobs (.claimed taskData) = none) := by
  have h : Inv maxParallelJobs s := hp.inv (fun _ _ _ hi _ hs => hi.step hs) (.init _)
  have hslots := h.slots
  have hres := reserved_nonneg h
  refine ⟨by omega, h.tracked, fun hst => ?_⟩
  obtain ⟨hne, hcount⟩ : s.activeTasks ≠ [] ∧ maxParallelJobs ≤
      (s.activeTasks.countP fun i => s.isTimedOut i && s.isAlive i : ℕ) := by
    simpa [isStuck] using hst
  have hle : s.activeTasks.countP (fun i => s.isTimedOut i && s.isAlive i) ≤
      s.activeTasks.length := List.countP_le_length
  have hpos := List.length_pos_of_ne_nil hne
  have hzero : s.pc.reserved = 0 := by omega
  refine ⟨by omega, hzero, fun taskData => ?_⟩
  -- a claim that is under way has a positive limit
  simp only [step]
  split
  · next limit hpc =>
    have hlim := h.pc
    rw [hpc] at hlim hzero
    exact absurd hzero (Int.ne_of_gt hlim)
  · rfl

/-- A worker with one slot, whose thread outlives its timeout. -/
def stuckCycle : List WorkerEv := [
  .tick, .tick, .tick, .tick, .clock 0, .tick, .tick, .tick, .tick, .tick,
  .claimed [⟨1, 30, some 7⟩], .clock 0, .tick, .tick,
  .tick, .tick, .tick, .tick, .tick, .clock 31, .tick, .tick]

theorem stuckCycle_stuck : ∃ s, Path (Worker.step 1) anyStep {} stuckCycle s ∧
    s.isStuck 1 = true ∧ (1 : ℤ) - s.activeTasks.length ≤ 0 := by
  have hp : Path (Worker.step 1) anyStep {} stuckCycle _ := path_reached (by decide +kernel)
  have hst : (reached (Worker.step 1) anyStep {} stuckCycle).isStuck 1 = true := by
    decide +kernel
  exact ⟨_, hp, hst, ((slot_accounting hp).2.2 hst).1⟩

end Worker

end Slots

end GenericTaskQueue
