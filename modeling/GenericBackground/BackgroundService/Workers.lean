import GenericBackground.Lib.Dict
import GenericBackground.Lib.Path

/-!
# The worker threads of a background service

A `BackgroundService` keeps one worker thread for every active database. Its beat runs
`stop_workers`, `clean_workers` and `spawn_workers`, each of them a loop whose steps interleave with
worker threads that die. Both `stop_workers` and `spawn_workers` probe the databases, and the
answers may differ.

A live worker stands in `_workers` under its database (`Registered`): `spawn_worker` registers a
worker before it starts it, and `clean_workers` deletes only what it has seen dead.
-/

namespace GenericBackgroundService

open Lts

abbrev DbName := String

/-- The answer of `_check_is_db_active` for a database. -/
structure DatabaseProbe where
  dbname : DbName
  state : Bool
  deriving DecidableEq, Repr

/-- The life of a thread. -/
inductive Life where
  | constructed
  | running
  | dead
  deriving DecidableEq, Repr

/-- A worker thread; `stopped` is its stop event. -/
structure Worker where
  dbname : DbName
  life : Life := .constructed
  stopped : Bool := false
  deriving DecidableEq, Repr

namespace Worker

def isAlive (w : Worker) : Bool := w.life = .running

def workerStop (w : Worker) : Worker := { w with stopped := true }

def started (w : Worker) : Worker := { w with life := .running }

def died (w : Worker) : Worker := { w with life := .dead }

end Worker

/-- Where the master thread is. A loop keeps what it has still to go through. -/
inductive Pc where
  | sleep
  | stopWorkers (probes : List DatabaseProbe) (todo : List DbName)
  | workerStop (worker : ℕ) (probes : List DatabaseProbe) (todo : List DbName)
  | cleanWorkers (todo : List (DbName × ℕ)) (stoppedDbs : List DbName)
  | delWorkers (stoppedDbs : List DbName)
  | probeDatabases
  | spawnWorkers (todo : List DatabaseProbe)
  | start (worker : ℕ) (todo : List DatabaseProbe)
  | crashed
  deriving DecidableEq, Repr

/-- The service: every worker it has constructed, and the workers it has registered. -/
structure BackgroundService where
  threads : List Worker := []
  workers : Dict DbName ℕ := .empty
  pc : Pc := .sleep

/-- How `start` ends. It may raise before the thread runs or after. -/
inductive StartOutcome where
  | started
  | raised
  | startedRaised
  deriving DecidableEq, Repr

inductive ServiceEv where
  /-- The beat begins, and the first probe has answered. -/
  | stopWorkers (probes : List DatabaseProbe)
  /-- The next statement of the beat. -/
  | tick
  /-- The second probe has answered. -/
  | spawnWorkers (probes : List DatabaseProbe)
  /-- `spawn_worker` gets the parameters and the class and constructs the worker, or fails. -/
  | spawnWorker (dbname : DbName) (ok : Bool)
  | start (dbname : DbName) (outcome : StartOutcome)
  | die (worker : ℕ)
  deriving DecidableEq, Repr

def ServiceEv.withinBeat : ServiceEv → Bool
  | .stopWorkers _ => false
  | _ => true

/-- The probes that `spawn_workers` has still to go through. -/
def Pc.toSpawn : Pc → List DatabaseProbe
  | .spawnWorkers todo => todo
  | .start _ todo => todo
  | _ => []

/-- The beat has not yet made its second probe. -/
def Pc.beforeProbe : Pc → Bool
  | .sleep | .spawnWorkers _ | .start _ _ | .crashed => false
  | _ => true

/-- The beat has still to look at worker `i`, registered under `d`. -/
def Pc.Pending (d : DbName) (i : ℕ) : Pc → Prop
  | .stopWorkers _ _ | .workerStop _ _ _ => True
  | .cleanWorkers todo dbs => (d, i) ∈ todo ∨ d ∈ dbs
  | .delWorkers dbs => d ∈ dbs
  | .start j _ => i = j
  | _ => False

namespace BackgroundService

/-! ## The beat -/

def Live (s : BackgroundService) (d : DbName) (i : ℕ) : Prop :=
  ∃ w, s.threads[i]? = some w ∧ w.dbname = d ∧ w.isAlive = true

def isAlive (s : BackgroundService) (i : ℕ) : Bool := s.threads[i]?.any Worker.isAlive

def isStopped (s : BackgroundService) (i : ℕ) : Bool := s.threads[i]?.any Worker.stopped

/-- `db_probes.get(dbname)` is an active database. Of several probes the last one counts. -/
def probedActive (probes : List DatabaseProbe) (d : DbName) : Bool :=
  ((probes.reverse.find? (·.dbname = d)).map DatabaseProbe.state).getD false

/-- The check of `stop_worker`: the worker that is told to stop. -/
def toStop (s : BackgroundService) (d : DbName) : Option ℕ :=
  (s.workers.get d).filter fun i => s.isAlive i && !s.isStopped i

def modifyWorker (s : BackgroundService) (i : ℕ) (f : Worker → Worker) : BackgroundService :=
  { s with threads := s.threads.modify i f }

/-- The next statement of the beat that depends on nothing outside. -/
def tick (s : BackgroundService) : Option BackgroundService :=
  match s.pc with
  | .stopWorkers probes (d :: todo) =>
    if probedActive probes d then some { s with pc := .stopWorkers probes todo }
    else match s.toStop d with
      | some i => some { s with pc := .workerStop i probes todo }
      | none => some { s with pc := .stopWorkers probes todo }
  | .stopWorkers _ [] => some { s with pc := .cleanWorkers s.workers.items [] }
  | .workerStop i probes todo =>
    some { s.modifyWorker i Worker.workerStop with pc := .stopWorkers probes todo }
  | .cleanWorkers ((d, i) :: todo) stoppedDbs =>
    if s.isAlive i then some { s with pc := .cleanWorkers todo stoppedDbs }
    else some { s with pc := .cleanWorkers todo (stoppedDbs ++ [d]) }
  | .cleanWorkers [] stoppedDbs => some { s with pc := .delWorkers stoppedDbs }
  | .delWorkers (d :: stoppedDbs) =>
    -- `del` of a missing key is a KeyError, which ends the service
    if d ∈ s.workers.keys then
      some { s with workers := s.workers.erase d, pc := .delWorkers stoppedDbs }
    else some { s with pc := .crashed }
  | .delWorkers [] => some { s with pc := .probeDatabases }
  | .spawnWorkers (p :: todo) =>
    if p.state ∧ p.dbname ∉ s.workers.keys then none
    else some { s with pc := .spawnWorkers todo }
  | .spawnWorkers [] => some { s with pc := .sleep }
  | _ => none

/-- One step of the master thread or of a worker thread. -/
def step (s : BackgroundService) : ServiceEv → Option BackgroundService
  | .stopWorkers probes =>
    if s.pc = .sleep then some { s with pc := .stopWorkers probes s.workers.keys } else none
  | .tick => s.tick
  | .spawnWorkers probes =>
    if s.pc = .probeDatabases then some { s with pc := .spawnWorkers probes } else none
  | .spawnWorker d ok => match s.pc with
    | .spawnWorkers (p :: todo) =>
      if p.state ∧ p.dbname ∉ s.workers.keys ∧ p.dbname = d then
        if ok then some
          { threads := s.threads ++ [{ dbname := d }]
            workers := s.workers.set d s.threads.length
            pc := .start s.threads.length todo }
        else some { s with pc := .spawnWorkers todo }
      else none
    | _ => none
  | .start d outcome => match s.pc with
    | .start i todo =>
      if s.threads[i]?.map Worker.dbname = some d then
        if outcome = .raised then some { s with pc := .spawnWorkers todo }
        else some { s.modifyWorker i Worker.started with pc := .spawnWorkers todo }
      else none
    | _ => none
  | .die i => if s.isAlive i then some (s.modifyWorker i Worker.died) else none

def Start (s : BackgroundService) : Prop := s.threads = [] ∧ s.workers = .empty ∧ s.pc = .sleep

variable {s s' s₁ s₂ : BackgroundService} {e : ServiceEv} {es : List ServiceEv} {d : DbName}
  {i j : ℕ}

/-! ## Live threads -/

theorem isAlive_iff : s.isAlive i = true ↔ ∃ d, s.Live d i := by
  unfold isAlive Live
  cases s.threads[i]? <;> simp

theorem live_workerStop : (s.modifyWorker i Worker.workerStop).Live d j ↔ s.Live d j := by
  simp only [Live, modifyWorker, List.getElem?_modify]
  cases s.threads[j]? with
  | none => simp
  | some w => by_cases hij : i = j <;> simp [hij, Worker.workerStop, Worker.isAlive]

theorem live_died : (s.modifyWorker i Worker.died).Live d j ↔ s.Live d j ∧ j ≠ i := by
  simp only [Live, modifyWorker, List.getElem?_modify]
  cases s.threads[j]? with
  | none => simp
  | some w =>
    by_cases hij : i = j
    · simp [hij, Worker.died, Worker.isAlive]
    · simp [hij, Ne.symm hij]

theorem live_started : (s.modifyWorker i Worker.started).Live d j ↔
    s.Live d j ∨ j = i ∧ s.threads[i]?.map Worker.dbname = some d := by
  simp only [Live, modifyWorker, List.getElem?_modify]
  by_cases hij : j = i
  · subst hij
    cases s.threads[j]? with
    | none => simp
    | some w =>
      have h : (∃ w', some w = some w' ∧ w'.dbname = d ∧ w'.isAlive = true) → w.dbname = d := by
        rintro ⟨w', hw, hd, -⟩
        rwa [Option.some.inj hw]
      simpa [Worker.started, Worker.isAlive] using h
  · simp [hij, Ne.symm hij]

theorem live_constructed {workers : Dict DbName ℕ} {pc : Pc} {d' : DbName} :
    Live ⟨s.threads ++ [{ dbname := d' }], workers, pc⟩ d i ↔ s.Live d i := by
  simp only [Live, List.getElem?_append]
  by_cases hi : i < s.threads.length
  · simp [hi]
  · rcases Nat.eq_zero_or_pos (i - s.threads.length) with h0 | h0
    · simp [hi, h0, Worker.isAlive]
    · simp [hi, Nat.ne_of_gt h0]

theorem isStopped_workerStop : (s.modifyWorker i Worker.workerStop).isStopped j = true ↔
    s.isStopped j = true ∨ j = i ∧ i < s.threads.length := by
  unfold isStopped modifyWorker
  rw [List.getElem?_modify]
  by_cases hij : j = i
  · subst hij
    by_cases hj : j < s.threads.length <;> simp [hj, Worker.workerStop]
  · simp [hij, Ne.symm hij]

theorem isStopped_modify {f : Worker → Worker} (hf : ∀ w, (f w).stopped = w.stopped) :
    (s.modifyWorker i f).isStopped j = s.isStopped j := by
  unfold isStopped modifyWorker
  rw [List.getElem?_modify]
  cases s.threads[j]? with
  | none => rfl
  | some w => by_cases hij : i = j <;> simp [hij, hf]

theorem isStopped_constructed {workers : Dict DbName ℕ} {pc : Pc} {d' : DbName} :
    isStopped ⟨s.threads ++ [{ dbname := d' }], workers, pc⟩ i = s.isStopped i := by
  simp only [isStopped, List.getElem?_append]
  by_cases hi : i < s.threads.length
  · simp [hi]
  · rcases Nat.eq_zero_or_pos (i - s.threads.length) with h0 | h0
    · simp [hi, h0]
    · simp [hi, Nat.ne_of_gt h0]

/-! ## What a step does -/

inductive Move (s : BackgroundService) : ServiceEv → BackgroundService → Prop
  | beat (probes : List DatabaseProbe) (hpc : s.pc = .sleep) :
    Move s (.stopWorkers probes) { s with pc := .stopWorkers probes s.workers.keys }
  | stopNext {probes d todo} (hpc : s.pc = .stopWorkers probes (d :: todo)) :
    Move s .tick { s with pc := .stopWorkers probes todo }
  | stopFound {probes d todo} (i : ℕ) (hpc : s.pc = .stopWorkers probes (d :: todo)) :
    Move s .tick { s with pc := .workerStop i probes todo }
  | stopDone {probes} (hpc : s.pc = .stopWorkers probes []) :
    Move s .tick { s with pc := .cleanWorkers s.workers.items [] }
  | workerStop {i probes todo} (hpc : s.pc = .workerStop i probes todo) :
    Move s .tick { s.modifyWorker i Worker.workerStop with pc := .stopWorkers probes todo }
  | cleanAlive {d i todo dbs} (hpc : s.pc = .cleanWorkers ((d, i) :: todo) dbs)
      (ha : s.isAlive i = true) : Move s .tick { s with pc := .cleanWorkers todo dbs }
  | cleanDead {d i todo dbs} (hpc : s.pc = .cleanWorkers ((d, i) :: todo) dbs)
      (ha : ¬ s.isAlive i = true) : Move s .tick { s with pc := .cleanWorkers todo (dbs ++ [d]) }
  | cleanDone {dbs} (hpc : s.pc = .cleanWorkers [] dbs) :
    Move s .tick { s with pc := .delWorkers dbs }
  | del {d dbs} (hpc : s.pc = .delWorkers (d :: dbs)) (hd : d ∈ s.workers.keys) :
    Move s .tick { s with workers := s.workers.erase d, pc := .delWorkers dbs }
  | keyError {d dbs} (hpc : s.pc = .delWorkers (d :: dbs)) (hd : d ∉ s.workers.keys) :
    Move s .tick { s with pc := .crashed }
  | delDone (hpc : s.pc = .delWorkers []) : Move s .tick { s with pc := .probeDatabases }
  | probe (probes : List DatabaseProbe) (hpc : s.pc = .probeDatabases) :
    Move s (.spawnWorkers probes) { s with pc := .spawnWorkers probes }
  | skip {p todo} (hpc : s.pc = .spawnWorkers (p :: todo))
      (hp : p.state = true → p.dbname ∈ s.workers.keys) :
    Move s .tick { s with pc := .spawnWorkers todo }
  | spawnDone (hpc : s.pc = .spawnWorkers []) : Move s .tick { s with pc := .sleep }
  | constructed {p todo} (hpc : s.pc = .spawnWorkers (p :: todo)) (hd : p.dbname ∉ s.workers.keys) :
    Move s (.spawnWorker p.dbname true)
      { threads := s.threads ++ [{ dbname := p.dbname }]
        workers := s.workers.set p.dbname s.threads.length
        pc := .start s.threads.length todo }
  | constructorRaised {p todo} (hpc : s.pc = .spawnWorkers (p :: todo)) :
    Move s (.spawnWorker p.dbname false) { s with pc := .spawnWorkers todo }
  | startRaised {i todo d} (hpc : s.pc = .start i todo)
      (hd : s.threads[i]?.map Worker.dbname = some d) :
    Move s (.start d .raised) { s with pc := .spawnWorkers todo }
  | started {i todo d outcome} (hpc : s.pc = .start i todo)
      (hd : s.threads[i]?.map Worker.dbname = some d) :
    Move s (.start d outcome) { s.modifyWorker i Worker.started with pc := .spawnWorkers todo }
  | die {i : ℕ} (ha : s.isAlive i = true) : Move s (.die i) (s.modifyWorker i Worker.died)

theorem tick_move (h : s.tick = some s') : Move s .tick s' := by
  unfold tick at h
  split at h
  · next probes d todo hpc =>
    split at h
    · cases h; exact .stopNext hpc
    · split at h
      · next i _ => cases h; exact .stopFound i hpc
      · cases h; exact .stopNext hpc
  · next hpc => cases h; exact .stopDone hpc
  · next hpc => cases h; exact .workerStop hpc
  · next d i todo dbs hpc =>
    split at h
    · next ha => cases h; exact .cleanAlive hpc ha
    · next ha => cases h; exact .cleanDead hpc ha
  · next hpc => cases h; exact .cleanDone hpc
  · next d dbs hpc =>
    split at h
    · next hd => cases h; exact .del hpc hd
    · next hd => cases h; exact .keyError hpc hd
  · next hpc => cases h; exact .delDone hpc
  · next p todo hpc =>
    split at h
    · cases h
    · next hp => cases h; exact .skip hpc fun hs => by_contra fun hd => hp ⟨hs, hd⟩
  · next hpc => cases h; exact .spawnDone hpc
  · cases h

theorem step_move (h : s.step e = some s') : Move s e s' := by
  cases e with
  | stopWorkers probes =>
    simp only [step] at h
    split at h
    · next hpc => cases h; exact .beat probes hpc
    · cases h
  | tick => exact tick_move h
  | spawnWorkers probes =>
    simp only [step] at h
    split at h
    · next hpc => cases h; exact .probe probes hpc
    · cases h
  | spawnWorker d ok =>
    simp only [step] at h
    split at h
    · next p todo hpc =>
      split at h
      · next hp =>
        obtain ⟨-, hd, rfl⟩ := hp
        cases ok with
        | true => cases h; exact .constructed hpc hd
        | false => cases h; exact .constructorRaised hpc
      · cases h
    · cases h
  | start d outcome =>
    simp only [step] at h
    split at h
    · next i todo hpc =>
      split at h
      · next hd =>
        split at h
        · next ho => cases h; rw [ho]; exact .startRaised hpc hd
        · cases h; exact .started hpc hd
      · cases h
    · cases h
  | die i =>
    simp only [step] at h
    split at h
    · next ha => cases h; exact .die ha
    · cases h

/-! ## One live worker for a database -/

/-- Every live worker stands in `_workers` under its database. -/
def Registered (s : BackgroundService) : Prop := ∀ d i, s.Live d i → s.workers.get d = some i

/-- What stands in `_workers` is a worker for its key. -/
def Keyed (s : BackgroundService) : Prop :=
  ∀ d i, s.workers.get d = some i → s.threads[i]?.map Worker.dbname = some d

/-- A database whose registered worker is not alive. -/
def Dead (s : BackgroundService) (d : DbName) : Prop := d ∈ s.workers.keys ∧ ∀ i, ¬ s.Live d i

/-- What the master thread relies on where it is. -/
def PcOk (s : BackgroundService) : Pc → Prop
  | .cleanWorkers todo dbs => (∀ p ∈ todo, p ∈ s.workers.items) ∧
    (dbs ++ todo.map Prod.fst).Nodup ∧ ∀ d ∈ dbs, s.Dead d
  | .delWorkers dbs => dbs.Nodup ∧ ∀ d ∈ dbs, s.Dead d
  | .start i _ => ∃ d, s.threads[i]?.map Worker.dbname = some d ∧ s.workers.get d = some i
  | .crashed => False
  | _ => True

structure Ok (s : BackgroundService) : Prop where
  registered : s.Registered
  keyed : s.Keyed
  pc : s.PcOk s.pc

theorem Registered.unique (h : s.Registered) (hi : s.Live d i) (hj : s.Live d j) : i = j :=
  Option.some.inj ((h d i hi).symm.trans (h d j hj))

theorem Registered.toStop (h : s.Registered) (hi : s.Live d i) :
    s.toStop d = if s.isStopped i = true then none else some i := by
  have ha : s.isAlive i = true := isAlive_iff.2 ⟨d, hi⟩
  unfold BackgroundService.toStop
  rw [h d i hi, Option.filter_some, ha]
  cases s.isStopped i <;> rfl

theorem Registered.dead (h : s.Registered) (hd : (d, i) ∈ s.workers.items)
    (ha : ¬ s.isAlive i = true) : s.Dead d := by
  have hget := Dict.mem_items_iff.1 hd
  refine ⟨Dict.mem_keys_iff.2 ⟨i, hget⟩, fun j hj => ha (isAlive_iff.2 ⟨d, ?_⟩)⟩
  obtain rfl : i = j := Option.some.inj (hget.symm.trans (h d j hj))
  exact hj

theorem Registered.mono (h : s.Registered) (hlive : ∀ d i, s'.Live d i → s.Live d i)
    (hw : s'.workers = s.workers) : s'.Registered := by
  intro d i hi
  rw [hw]
  exact h d i (hlive d i hi)

theorem Dead.mono (h : s.Dead d) (hlive : ∀ d i, s'.Live d i → s.Live d i)
    (hw : s'.workers = s.workers) : s'.Dead d := by
  refine ⟨?_, fun i hi => h.2 i (hlive d i hi)⟩
  rw [hw]
  exact h.1

theorem dbname_modify {f : Worker → Worker} (hf : ∀ w, (f w).dbname = w.dbname) :
    (s.modifyWorker i f).threads[j]?.map Worker.dbname = s.threads[j]?.map Worker.dbname := by
  simp only [modifyWorker, List.getElem?_modify]
  cases s.threads[j]? with
  | none => rfl
  | some w => by_cases hij : i = j <;> simp [hij, hf]

theorem Keyed.modify {f : Worker → Worker} (hf : ∀ w, (f w).dbname = w.dbname) (h : s.Keyed) :
    (s.modifyWorker i f).Keyed := by
  intro d j hj
  rw [dbname_modify hf]
  exact h d j hj

theorem PcOk.die {pc : Pc} (h : s.PcOk pc) : (s.modifyWorker i Worker.died).PcOk pc := by
  have hlive : ∀ d j, (s.modifyWorker i Worker.died).Live d j → s.Live d j :=
    fun d j hj => (live_died.1 hj).1
  cases pc with
  | cleanWorkers todo dbs => exact ⟨h.1, h.2.1, fun d hd => (h.2.2 d hd).mono hlive rfl⟩
  | delWorkers dbs => exact ⟨h.1, fun d hd => (h.2 d hd).mono hlive rfl⟩
  | start j todo =>
    obtain ⟨d, hd, hget⟩ := h
    exact ⟨d, by rwa [dbname_modify (f := Worker.died) fun _ => rfl], hget⟩
  | crashed => exact h
  | _ => trivial

theorem Ok.move (h : s.Ok) (hm : Move s e s') : s'.Ok := by
  have hpc := h.pc
  cases hm with
  | beat probes _ => exact ⟨h.registered, h.keyed, trivial⟩
  | stopNext _ => exact ⟨h.registered, h.keyed, trivial⟩
  | stopFound i _ => exact ⟨h.registered, h.keyed, trivial⟩
  | stopDone _ =>
    exact ⟨h.registered, h.keyed, fun p hp => hp, by simpa using s.workers.nodup, by simp⟩
  | workerStop _ =>
    exact ⟨h.registered.mono (fun d i => live_workerStop.1) rfl,
      h.keyed.modify (f := Worker.workerStop) fun _ => rfl, trivial⟩
  | @cleanAlive d i todo dbs hs ha =>
    rw [hs] at hpc
    obtain ⟨htodo, hnd, hdead⟩ := hpc
    refine ⟨h.registered, h.keyed, fun p hp => htodo p (List.mem_cons_of_mem _ hp), ?_, hdead⟩
    exact hnd.sublist ((List.sublist_cons_self _ _).append_left _)
  | @cleanDead d i todo dbs hs ha =>
    rw [hs] at hpc
    obtain ⟨htodo, hnd, hdead⟩ := hpc
    refine ⟨h.registered, h.keyed, fun p hp => htodo p (List.mem_cons_of_mem _ hp), ?_, ?_⟩
    · simpa using hnd
    · intro d' hd'
      rcases List.mem_append.1 hd' with hd' | hd'
      · exact hdead d' hd'
      · rw [List.mem_singleton.1 hd']
        exact h.registered.dead (htodo _ List.mem_cons_self) ha
  | @cleanDone dbs hs =>
    rw [hs] at hpc
    exact ⟨h.registered, h.keyed, by simpa using hpc.2.1, hpc.2.2⟩
  | @del d dbs hs hd =>
    rw [hs] at hpc
    obtain ⟨hnd, hdead⟩ := hpc
    have hne : ∀ d' i, s.Live d' i → d' ≠ d := by
      rintro d' i hi rfl
      exact (hdead d' List.mem_cons_self).2 i hi
    refine ⟨fun d' i hi => ?_, fun d' i hi => ?_, (List.nodup_cons.1 hnd).2, fun d' hd' => ?_⟩
    · rw [Dict.get_erase, if_neg (hne d' i hi)]
      exact h.registered d' i hi
    · rw [Dict.get_erase] at hi
      split at hi
      · cases hi
      · exact h.keyed d' i hi
    · obtain ⟨hk, hl⟩ := hdead d' (List.mem_cons_of_mem _ hd')
      refine ⟨Dict.mem_keys_erase.2 ⟨?_, hk⟩, hl⟩
      rintro rfl
      exact (List.nodup_cons.1 hnd).1 hd'
  | keyError hs hd =>
    rw [hs] at hpc
    exact absurd (hpc.2 _ List.mem_cons_self).1 hd
  | delDone _ => exact ⟨h.registered, h.keyed, trivial⟩
  | probe probes _ => exact ⟨h.registered, h.keyed, trivial⟩
  | skip _ _ => exact ⟨h.registered, h.keyed, trivial⟩
  | spawnDone _ => exact ⟨h.registered, h.keyed, trivial⟩
  | @constructed p todo _ hd =>
    refine ⟨fun d' i hi => ?_, fun d' i hi => ?_, p.dbname, by simp, by simp⟩
    · have hget := h.registered d' i (live_constructed.1 hi)
      rw [Dict.get_set, if_neg ?_]
      · exact hget
      · rintro rfl
        exact hd (Dict.mem_keys_iff.2 ⟨i, hget⟩)
    · rw [Dict.get_set] at hi
      split at hi
      · next hd' => obtain rfl := Option.some.inj hi; simp [hd']
      · have hold := h.keyed d' i hi
        obtain ⟨w, hw, -⟩ := Option.map_eq_some_iff.1 hold
        rw [List.getElem?_append_left (List.getElem?_eq_some_iff.1 hw).1]
        exact hold
  | constructorRaised _ => exact ⟨h.registered, h.keyed, trivial⟩
  | startRaised _ _ => exact ⟨h.registered, h.keyed, trivial⟩
  | started hs hd =>
    rw [hs] at hpc
    refine ⟨fun d' j hj => ?_, h.keyed.modify (f := Worker.started) fun _ => rfl, trivial⟩
    rcases live_started.1 hj with hj | ⟨rfl, hj⟩
    · exact h.registered d' j hj
    · obtain ⟨d, hd, hget⟩ := hpc
      rwa [← Option.some.inj (hd.symm.trans hj)]
  | die ha =>
    exact ⟨h.registered.mono (fun d j hj => (live_died.1 hj).1) rfl,
      h.keyed.modify (f := Worker.died) fun _ => rfl, hpc.die⟩

theorem Start.ok (h : s.Start) : s.Ok := by
  obtain ⟨ht, hw, hpc⟩ := h
  refine ⟨?_, ?_, ?_⟩
  · rintro d i ⟨w, hwi, -⟩
    simp [ht] at hwi
  · intro d i hi
    simp [hw] at hi
  · simp [PcOk, hpc]

theorem Ok.next (h : s.Ok) (hs : s.step e = some s') : s'.Ok := h.move (step_move hs)

theorem Ok.path {ok : BackgroundService → ServiceEv → Prop} (h : s.Ok)
    (hp : Path step ok s es s') : s'.Ok :=
  hp.inv (fun _ _ _ hI _ hs => hI.next hs) h

theorem Ok.live (h : s.Ok) (hd : s.workers.get d = some i) (ha : s.isAlive i = true) :
    s.Live d i := by
  obtain ⟨d', w, hw, -, hal⟩ := isAlive_iff.1 ha
  refine ⟨w, hw, ?_, hal⟩
  simpa [hw] using h.keyed d i hd

/-! ## The databases of one beat -/

/-- In the run so far worker `i` has been alive for `d`, or its start has failed. -/
def Served (s₁ : BackgroundService) (es : List ServiceEv) (d : DbName) (i : ℕ) : Prop :=
  Sometime step (fun s => s.Live d i) s₁ es ∨ .start d .raised ∈ es

theorem Served.concat (h : Served s₁ es d i) (e : ServiceEv) : Served s₁ (es ++ [e]) d i :=
  h.imp (·.concat e) (List.mem_append_left _)

/-- What a beat has done for the databases, `s₁` being the state in which it began. -/
structure BeatSoFar (s₁ : BackgroundService) (es : List ServiceEv) (s : BackgroundService) :
    Prop where
  served : ∀ d i, s.workers.get d = some i → s.pc.Pending d i ∨ Served s₁ es d i
  probed : ∀ probes, .spawnWorkers probes ∈ es → ∀ p ∈ probes, p.state = true →
    p ∈ s.pc.toSpawn ∨ p.dbname ∈ s.workers.keys ∨ .spawnWorker p.dbname false ∈ es
  fresh : s.pc.beforeProbe = true → ∀ probes, .spawnWorkers probes ∉ es

theorem BeatSoFar.quiet (h : BeatSoFar s₁ es s) (hw : s'.workers = s.workers)
    (hpend : ∀ d i, s.workers.get d = some i → s.pc.Pending d i →
      s'.pc.Pending d i ∨ Served s₁ (es ++ [e]) d i)
    (hspawn : ∀ p ∈ s.pc.toSpawn, p.state = true → p ∈ s'.pc.toSpawn ∨
      p.dbname ∈ s.workers.keys ∨ e = .spawnWorker p.dbname false)
    (hfresh : s'.pc.beforeProbe = true → s.pc.beforeProbe = true)
    (he : ∀ probes, e ≠ .spawnWorkers probes) : BeatSoFar s₁ (es ++ [e]) s' := by
  refine ⟨fun d i hi => ?_, fun probes hprobes p hp hst => ?_, fun hb probes hprobes => ?_⟩
  · rw [hw] at hi
    rcases h.served d i hi with hpe | hse
    · exact hpend d i hi hpe
    · exact .inr (hse.concat e)
  · rw [hw]
    have hold : .spawnWorkers probes ∈ es := by simpa [Ne.symm (he probes)] using hprobes
    rcases h.probed probes hold p hp hst with h1 | h1 | h1
    · rcases hspawn p h1 hst with h2 | h2 | h2
      · exact .inl h2
      · exact .inr (.inl h2)
      · exact .inr (.inr (by simp [h2]))
    · exact .inr (.inl h1)
    · exact .inr (.inr (List.mem_append_left _ h1))
  · have hold : .spawnWorkers probes ∈ es := by simpa [Ne.symm (he probes)] using hprobes
    exact h.fresh (hfresh hb) probes hold

theorem BeatSoFar.move (hp : Path step anyStep s₁ es s) (hok : s.Ok) (h : BeatSoFar s₁ es s)
    (hs : s.step e = some s') (hin : e.withinBeat = true) (hm : Move s e s') :
    BeatSoFar s₁ (es ++ [e]) s' := by
  have hpath : Path step anyStep s₁ (es ++ [e]) s' := hp.concat trivial hs
  cases hm with
  | beat probes _ => cases hin
  | stopNext hpc =>
    exact h.quiet rfl (fun d i _ _ => .inl trivial) (by simp [hpc, Pc.toSpawn])
      (by simp [hpc, Pc.beforeProbe]) (by simp)
  | stopFound i hpc =>
    exact h.quiet rfl (fun d i _ _ => .inl trivial) (by simp [hpc, Pc.toSpawn])
      (by simp [hpc, Pc.beforeProbe]) (by simp)
  | stopDone hpc =>
    refine h.quiet rfl (fun d i hi _ => .inl (.inl ?_)) (by simp [hpc, Pc.toSpawn])
      (by simp [hpc, Pc.beforeProbe]) (by simp)
    exact Dict.mem_items_iff.2 hi
  | workerStop hpc =>
    exact h.quiet rfl (fun d i _ _ => .inl trivial) (by simp [hpc, Pc.toSpawn])
      (by simp [hpc, Pc.beforeProbe]) (by simp)
  | @cleanAlive d i todo dbs hpc ha =>
    refine h.quiet rfl (fun d' j hj hpe => ?_) (by simp [hpc, Pc.toSpawn])
      (by simp [hpc, Pc.beforeProbe]) (by simp)
    simp only [hpc, Pc.Pending, List.mem_cons, Prod.mk.injEq] at hpe
    rcases hpe with (⟨rfl, rfl⟩ | hpe) | hpe
    · -- the worker has just been seen alive
      exact .inr (.inl ((hp.sometime (hok.live hj ha)).concat _))
    · exact .inl (.inl hpe)
    · exact .inl (.inr hpe)
  | @cleanDead d i todo dbs hpc ha =>
    refine h.quiet rfl (fun d' j hj hpe => .inl ?_) (by simp [hpc, Pc.toSpawn])
      (by simp [hpc, Pc.beforeProbe]) (by simp)
    simp only [hpc, Pc.Pending, List.mem_cons, Prod.mk.injEq] at hpe
    rcases hpe with (⟨rfl, rfl⟩ | hpe) | hpe
    · exact .inr (by simp)
    · exact .inl hpe
    · exact .inr (List.mem_append_left _ hpe)
  | cleanDone hpc =>
    refine h.quiet rfl (fun d' j hj hpe => .inl ?_) (by simp [hpc, Pc.toSpawn])
      (by simp [hpc, Pc.beforeProbe]) (by simp)
    simpa [hpc, Pc.Pending] using hpe
  | @del d dbs hpc hd =>
    have hnone : ∀ probes, .spawnWorkers probes ∉ es := h.fresh (by simp [hpc, Pc.beforeProbe])
    refine ⟨fun d' j hj => ?_, fun probes hprobes => ?_, fun _ probes hprobes => ?_⟩
    · rw [Dict.get_erase] at hj
      split at hj
      · cases hj
      · next hne =>
        rcases h.served d' j hj with hpe | hse
        · exact .inl (by simpa [hpc, Pc.Pending, hne] using hpe)
        · exact .inr (hse.concat _)
    · exact absurd (by simpa using hprobes) (hnone probes)
    · exact hnone probes (by simpa using hprobes)
  | keyError hpc hd =>
    have hbad := hok.pc
    rw [hpc] at hbad
    exact absurd (hbad.2 _ List.mem_cons_self).1 hd
  | delDone hpc =>
    exact h.quiet rfl (by simp [hpc, Pc.Pending]) (by simp [hpc, Pc.toSpawn])
      (by simp [hpc, Pc.beforeProbe]) (by simp)
  | probe probes hpc =>
    have hnone : ∀ probes, .spawnWorkers probes ∉ es := h.fresh (by simp [hpc, Pc.beforeProbe])
    refine ⟨fun d j hj => ?_, fun probes' hprobes p hp _ => .inl ?_, by simp [Pc.beforeProbe]⟩
    · rcases h.served d j hj with hpe | hse
      · simp [hpc, Pc.Pending] at hpe
      · exact .inr (hse.concat _)
    · have heq : probes' = probes := by simpa [hnone probes'] using hprobes
      simpa [Pc.toSpawn, ← heq] using hp
  | @skip p todo hpc hdb =>
    refine h.quiet rfl (by simp [hpc, Pc.Pending]) (fun q hq hst => ?_)
      (by simp [Pc.beforeProbe]) (by simp)
    rcases List.mem_cons.1 (by simpa [hpc, Pc.toSpawn] using hq) with rfl | hq
    · exact .inr (.inl (hdb hst))
    · exact .inl hq
  | spawnDone hpc =>
    exact h.quiet rfl (by simp [hpc, Pc.Pending]) (by simp [hpc, Pc.toSpawn])
      (by simp [Pc.beforeProbe]) (by simp)
  | @constructed p todo hpc hd =>
    refine ⟨fun d j hj => ?_, fun probes hprobes q hq hst => ?_, by simp [Pc.beforeProbe]⟩
    · rw [Dict.get_set] at hj
      split at hj
      · exact .inl (Option.some.inj hj).symm
      · rcases h.served d j hj with hpe | hse
        · simp [hpc, Pc.Pending] at hpe
        · exact .inr (hse.concat _)
    · rcases h.probed probes (by simpa using hprobes) q hq hst with h1 | h1 | h1
      · rcases List.mem_cons.1 (by simpa [hpc, Pc.toSpawn] using h1) with rfl | h1
        · exact .inr (.inl (by simp))
        · exact .inl h1
      · exact .inr (.inl (by simp [h1]))
      · exact .inr (.inr (List.mem_append_left _ h1))
  | @constructorRaised p todo hpc =>
    refine h.quiet rfl (by simp [hpc, Pc.Pending]) (fun q hq hst => ?_)
      (by simp [Pc.beforeProbe]) (by simp)
    rcases List.mem_cons.1 (by simpa [hpc, Pc.toSpawn] using hq) with rfl | hq
    · exact .inr (.inr rfl)
    · exact .inl hq
  | @startRaised i todo d hpc hd =>
    refine h.quiet rfl (fun d' j hj hpe => .inr (.inr ?_))
      (fun q hq _ => .inl (by simpa [hpc, Pc.toSpawn] using hq)) (by simp [Pc.beforeProbe])
      (by simp)
    have hij : j = i := by simpa [hpc, Pc.Pending] using hpe
    have hdd : d = d' := Option.some.inj (hd.symm.trans (hij ▸ hok.keyed d' j hj))
    simp [hdd]
  | @started i todo d outcome hpc hd =>
    refine h.quiet rfl (fun d' j hj hpe => .inr (.inl (hpath.sometime ?_)))
      (fun q hq _ => .inl (by simpa [hpc, Pc.toSpawn] using hq)) (by simp [Pc.beforeProbe])
      (by simp)
    have hij : j = i := by simpa [hpc, Pc.Pending] using hpe
    exact live_started.2 (.inr ⟨hij, hij ▸ hok.keyed d' j hj⟩)
  | die ha =>
    exact h.quiet rfl (fun d j _ hpe => .inl hpe) (fun q hq _ => .inl hq) (fun hb => hb) (by simp)

theorem BeatSoFar.path (h : s.Ok) {probes : List DatabaseProbe}
    (hs : s.step (.stopWorkers probes) = some s₁)
    (hp : Path step (fun _ e => e.withinBeat = true) s₁ es s₂) : BeatSoFar s₁ es s₂ := by
  have h1 : s₁.Ok := h.next hs
  refine hp.inv_history (fun es s e s' hpre hB hin hs => ?_)
    ⟨fun d i _ => .inl ?_, by simp, by simp⟩
  · exact hB.move hpre (h1.path hpre) hs hin (step_move hs)
  · cases step_move hs
    trivial

/-- The master thread is never blocked. -/
theorem Ok.enabled (h : s.Ok) : ∃ e, (∀ i, e ≠ .die i) ∧ (s.step e).isSome = true := by
  have hpc := h.pc
  cases hs : s.pc with
  | sleep => exact ⟨.stopWorkers [], by simp, by simp [step, hs]⟩
  | stopWorkers probes todo =>
    refine ⟨.tick, by simp, ?_⟩
    cases todo with
    | nil => simp [step, tick, hs]
    | cons d todo =>
      simp only [step, tick, hs]
      split
      · rfl
      · split <;> rfl
  | workerStop i probes todo => exact ⟨.tick, by simp, by simp [step, tick, hs]⟩
  | cleanWorkers todo dbs =>
    refine ⟨.tick, by simp, ?_⟩
    cases todo with
    | nil => simp [step, tick, hs]
    | cons p todo =>
      simp only [step, tick, hs]
      split <;> rfl
  | delWorkers dbs =>
    refine ⟨.tick, by simp, ?_⟩
    cases dbs with
    | nil => simp [step, tick, hs]
    | cons d dbs =>
      simp only [step, tick, hs]
      split <;> rfl
  | probeDatabases => exact ⟨.spawnWorkers [], by simp, by simp [step, hs]⟩
  | spawnWorkers todo =>
    cases todo with
    | nil => exact ⟨.tick, by simp, by simp [step, tick, hs]⟩
    | cons p todo =>
      by_cases hp : p.state = true ∧ p.dbname ∉ s.workers.keys
      · exact ⟨.spawnWorker p.dbname true, by simp, by simp [step, hs, hp]⟩
      · exact ⟨.tick, by simp, by simp only [step, tick, hs, if_neg hp, Option.isSome_some]⟩
  | start i todo =>
    rw [hs] at hpc
    obtain ⟨d, hd, -⟩ := hpc
    exact ⟨.start d .started, by simp, by simp [step, hs, hd]⟩
  | crashed =>
    rw [hs] at hpc
    exact hpc.elim

/-- **One worker thread per database.** -/
theorem one_worker_per_database (h0 : s.Start) (h : Path step anyStep s es s') :
    (∀ d i j, s'.Live d i → s'.Live d j → i = j) ∧
    (∀ d i, s'.Live d i → s'.workers.get d = some i) ∧
    -- a worker told to stop is replaced only after it is dead
    (∀ i w es' s₂ j, s'.threads[i]? = some w → w.stopped = true → Path step anyStep s' es' s₂ →
      s₂.workers.get w.dbname = some j → j ≠ i → ¬ s₂.Live w.dbname i) ∧
    -- the beat goes on, and serves the active databases whose own worker comes up
    s'.pc ≠ .crashed ∧
    (∀ probes₁ s₁ es' s₂, s'.step (.stopWorkers probes₁) = some s₁ →
      Path step (fun _ e => e.withinBeat = true) s₁ es' s₂ → s₂.pc = .sleep →
      ∀ probes p, .spawnWorkers probes ∈ es' → p ∈ probes → p.state = true →
        .spawnWorker p.dbname false ∉ es' → .start p.dbname .raised ∉ es' →
        ∃ i, s₂.workers.get p.dbname = some i ∧
          Sometime step (fun s => s.Live p.dbname i) s₁ es') := by
  have hok : s'.Ok := h0.ok.path h
  refine ⟨fun d i j => hok.registered.unique, hok.registered, ?_, ?_, ?_⟩
  · intro i w es' s₂ j _ _ hp hj hne hlive
    have hi := (hok.path hp).registered w.dbname i hlive
    exact hne (Option.some.inj (hj.symm.trans hi))
  · intro hcr
    have hpc := hok.pc
    rw [hcr] at hpc
    exact hpc
  · intro probes₁ s₁ es' s₂ hs hp hend probes p hprobes hmem hst hcon hstart
    have hB := BeatSoFar.path hok hs hp
    have hkey : p.dbname ∈ s₂.workers.keys := by
      rcases hB.probed probes hprobes p hmem hst with h1 | h1 | h1
      · simp [hend, Pc.toSpawn] at h1
      · exact h1
      · exact absurd h1 hcon
    obtain ⟨i, hi⟩ := Dict.mem_keys_iff.1 hkey
    refine ⟨i, hi, ?_⟩
    rcases hB.served p.dbname i hi with h1 | h1 | h1
    · simp [hend, Pc.Pending] at h1
    · exact h1
    · exact absurd h1 hstart

/-- A beat in which one database fails and another does not. -/
def oneBadDatabase : List ServiceEv :=
  [.tick, .tick, .tick, .spawnWorkers [⟨"bad_db", true⟩, ⟨"good_db", true⟩],
    .spawnWorker "bad_db" false, .spawnWorker "good_db" true, .start "good_db" .started, .tick]

def firstBeat : BackgroundService := { pc := .stopWorkers [] [] }

theorem oneBadDatabase_served :
    ∃ i, (reached step anyStep firstBeat oneBadDatabase).workers.get "good_db" = some i := by
  have hrun : Path step anyStep {} [] {} := .nil _
  have hbeat := (one_worker_per_database ⟨rfl, rfl, rfl⟩ hrun).2.2.2.2 [] firstBeat oneBadDatabase
    (reached step (fun _ e => e.withinBeat = true) firstBeat oneBadDatabase) rfl
    (path_reached (by decide)) (by decide) [⟨"bad_db", true⟩, ⟨"good_db", true⟩] ⟨"good_db", true⟩
    (by decide) (by decide) rfl (by decide) (by decide)
  obtain ⟨i, hi, -⟩ := hbeat
  exact ⟨i, hi⟩

end BackgroundService

end GenericBackgroundService
