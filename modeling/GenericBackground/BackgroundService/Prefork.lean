import GenericBackground.BackgroundService.Workers

/-!
# Services of a prefork server

In worker mode every service runs in a child process of its own. The master keeps a registry of
pids for each service (`server_worker_registry`). `process_spawn` forks a worker for each service
whose registry is empty, and `worker_pop` takes the pid of a reaped child out of all registries. The
rest of the server is not part of this repository; the steps rely on four things of it and of the
operating system:

1. a fork returns a pid that no unreaped child has (a dead child keeps its pid until it is reaped);
2. `worker_spawn(klass, workers_registry)` puts the pid of the child that it forks into the registry
   that it is given, and raises before the fork if it raises at all;
3. `worker_pop` is called with a pid only once it has been reaped, or names no child;
4. the master does one thing at a time, so nothing is reaped in the midst of `process_spawn`.

Then a registry lists exactly the unreaped child of its service (`PreforkServer.Ok`). With the
invariant of a single service this makes one live worker thread for a service and a database on the
whole server, over all restarts of processes: a process is replaced only once it is gone with all
its threads.
-/

namespace GenericBackgroundService

open Lts

abbrev Pid := ℕ

abbrev ServiceName := String

/-- A child that has not been reaped; `service` is what it runs, if it is a `ServiceContainerWorker`
at all. -/
structure Process where
  service : Option ServiceName
  alive : Bool := true
  state : BackgroundService := {}

/-- Where the master process is: anywhere else, or in `process_spawn` with services to go. -/
inductive MasterPc where
  | idle
  | processSpawn (todo : List ServiceName)
  deriving DecidableEq, Repr

structure PreforkServer where
  processes : Pid → Option Process := fun _ => none
  serverWorkerRegistry : ServiceName → List Pid := fun _ => []
  pc : MasterPc := .idle

inductive PreforkEv where
  /-- A worker that runs no service: HTTP, cron, gevent. -/
  | otherSpawn (pid : Pid)
  | processSpawn
  /-- The next service of the loop has a worker; or the loop ends. -/
  | next
  | workerSpawn (pid : Pid)
  /-- `process_spawn` ends with an exception. -/
  | raised
  /-- `waitpid` has returned the pid of a dead child, and `worker_pop` follows. -/
  | reap (pid : Pid)
  /-- `worker_pop` of a pid that a `kill` did not find. -/
  | workerPop (pid : Pid)
  | service (pid : Pid) (e : ServiceEv)
  | exit (pid : Pid)
  deriving DecidableEq, Repr

namespace PreforkServer

def setProcess (s : PreforkServer) (pid : Pid) (p : Option Process) : PreforkServer :=
  { s with processes := Function.update s.processes pid p }

def serverWorkerPop (s : PreforkServer) (pid : Pid) : PreforkServer :=
  { s with serverWorkerRegistry := fun srv => (s.serverWorkerRegistry srv).filter (· ≠ pid) }

/-- `worker_spawn(srv_cls, worker_registry)` in the master, which registers the pid. The container
with the service in it is constructed before the fork. -/
def workerSpawn (s : PreforkServer) (srv : ServiceName) (pid : Pid) : PreforkServer where
  processes := Function.update s.processes pid (some { service := some srv })
  serverWorkerRegistry := Function.update s.serverWorkerRegistry srv
    (pid :: s.serverWorkerRegistry srv)
  pc := s.pc

/-- One step of the server; `services` are the names in `srv_manager.services`. -/
def step (services : List ServiceName) (s : PreforkServer) : PreforkEv → Option PreforkServer
  | .otherSpawn pid =>
    if s.pc = .idle ∧ (s.processes pid).isNone then
      some (s.setProcess pid (some { service := none }))
    else none
  | .processSpawn => if s.pc = .idle then some { s with pc := .processSpawn services } else none
  | .next => match s.pc with
    | .processSpawn (srv :: todo) =>
      if (s.serverWorkerRegistry srv).length < 1 then none
      else some { s with pc := .processSpawn todo }
    | .processSpawn [] => some { s with pc := .idle }
    | .idle => none
  | .workerSpawn pid => match s.pc with
    | .processSpawn (srv :: todo) =>
      if (s.serverWorkerRegistry srv).length < 1 ∧ (s.processes pid).isNone then
        some { s.workerSpawn srv pid with pc := .processSpawn todo }
      else none
    | _ => none
  | .raised => if s.pc = .idle then none else some { s with pc := .idle }
  | .reap pid =>
    if s.pc = .idle ∧ (s.processes pid).any (!·.alive) then
      some ((s.setProcess pid none).serverWorkerPop pid)
    else none
  | .workerPop pid =>
    if s.pc = .idle ∧ (s.processes pid).isNone then some (s.serverWorkerPop pid) else none
  | .service pid e => (s.processes pid).bind fun p =>
    if p.alive ∧ p.service.isSome then
      (p.state.step e).map fun st => s.setProcess pid (some { p with state := st })
    else none
  | .exit pid => (s.processes pid).bind fun p =>
    if p.alive then some (s.setProcess pid (some { p with alive := false })) else none

def Runs (s : PreforkServer) (srv : ServiceName) (pid : Pid) : Prop :=
  ∃ p, s.processes pid = some p ∧ p.service = some srv

/-- Thread `i` of process `pid` is a live worker of service `srv` for database `d`. -/
def Live (s : PreforkServer) (srv : ServiceName) (d : DbName) (pid : Pid) (i : ℕ) : Prop :=
  ∃ p, s.processes pid = some p ∧ p.service = some srv ∧ p.alive = true ∧ p.state.Live d i

/-! ## What a step does -/

inductive Move (services : List ServiceName) (s : PreforkServer) :
    PreforkEv → PreforkServer → Prop
  | otherSpawn {pid} (hpc : s.pc = .idle) (hp : s.processes pid = none) :
    Move services s (.otherSpawn pid) (s.setProcess pid (some { service := none }))
  | processSpawn (hpc : s.pc = .idle) :
    Move services s .processSpawn { s with pc := .processSpawn services }
  | hasWorker {srv todo} (hpc : s.pc = .processSpawn (srv :: todo))
      (hr : s.serverWorkerRegistry srv ≠ []) :
    Move services s .next { s with pc := .processSpawn todo }
  | done (hpc : s.pc = .processSpawn []) : Move services s .next { s with pc := .idle }
  | workerSpawn {srv todo pid} (hpc : s.pc = .processSpawn (srv :: todo))
      (hr : s.serverWorkerRegistry srv = []) (hp : s.processes pid = none) :
    Move services s (.workerSpawn pid) { s.workerSpawn srv pid with pc := .processSpawn todo }
  | raised (hpc : s.pc ≠ .idle) : Move services s .raised { s with pc := .idle }
  | reap {pid p} (hpc : s.pc = .idle) (hp : s.processes pid = some p) (hd : p.alive = false) :
    Move services s (.reap pid) ((s.setProcess pid none).serverWorkerPop pid)
  | workerPop {pid} (hpc : s.pc = .idle) (hp : s.processes pid = none) :
    Move services s (.workerPop pid) (s.serverWorkerPop pid)
  | service {pid p e st} (hp : s.processes pid = some p) (ha : p.alive = true)
      (hs : p.state.step e = some st) :
    Move services s (.service pid e) (s.setProcess pid (some { p with state := st }))
  | exit {pid p} (hp : s.processes pid = some p) :
    Move services s (.exit pid) (s.setProcess pid (some { p with alive := false }))

variable {services : List ServiceName} {s s' s₁ s₂ : PreforkServer} {e : PreforkEv}
  {es : List PreforkEv} {srv : ServiceName} {pid pid' : Pid}

theorem step_move (h : s.step services e = some s') : Move services s e s' := by
  cases e with
  | otherSpawn pid =>
    simp only [step, Option.ite_none_right_eq_some, Option.some.injEq, Option.isNone_iff_eq_none]
      at h
    obtain ⟨⟨hpc, hp⟩, rfl⟩ := h
    exact .otherSpawn hpc hp
  | processSpawn =>
    simp only [step, Option.ite_none_right_eq_some, Option.some.injEq] at h
    obtain ⟨hpc, rfl⟩ := h
    exact .processSpawn hpc
  | next =>
    simp only [step] at h
    split at h
    · next srv todo hpc =>
      split at h
      · cases h
      · next hr => cases h; exact .hasWorker hpc fun he => hr (by simp [he])
    · next hpc => cases h; exact .done hpc
    · cases h
  | workerSpawn pid =>
    simp only [step] at h
    split at h
    · next srv todo hpc =>
      simp only [Option.ite_none_right_eq_some, Option.some.injEq, Option.isNone_iff_eq_none] at h
      obtain ⟨⟨hr, hp⟩, rfl⟩ := h
      exact .workerSpawn hpc (List.length_eq_zero_iff.1 (Nat.lt_one_iff.1 hr)) hp
    · cases h
  | raised =>
    simp only [step, Option.ite_none_left_eq_some, Option.some.injEq] at h
    obtain ⟨hpc, rfl⟩ := h
    exact .raised hpc
  | reap pid =>
    simp only [step, Option.ite_none_right_eq_some, Option.some.injEq, Option.any_eq_true] at h
    obtain ⟨⟨hpc, p, hp, hd⟩, rfl⟩ := h
    exact .reap hpc hp (by simpa using hd)
  | workerPop pid =>
    simp only [step, Option.ite_none_right_eq_some, Option.some.injEq, Option.isNone_iff_eq_none]
      at h
    obtain ⟨⟨hpc, hp⟩, rfl⟩ := h
    exact .workerPop hpc hp
  | service pid e =>
    obtain ⟨p, hp, h⟩ := Option.bind_eq_some_iff.1 h
    simp only [Option.ite_none_right_eq_some] at h
    obtain ⟨⟨ha, -⟩, h⟩ := h
    obtain ⟨st, hs, rfl⟩ := Option.map_eq_some_iff.1 h
    exact .service hp ha hs
  | exit pid =>
    obtain ⟨p, hp, h⟩ := Option.bind_eq_some_iff.1 h
    simp only [Option.ite_none_right_eq_some, Option.some.injEq] at h
    obtain ⟨-, rfl⟩ := h
    exact .exit hp

theorem processes_set (s : PreforkServer) (pid pid' : Pid) (p : Option Process) :
    (s.setProcess pid p).processes pid' = if pid' = pid then p else s.processes pid' := by
  show Function.update _ _ _ _ = _
  rw [Function.update_apply]

theorem processes_workerSpawn (s : PreforkServer) (srv : ServiceName) (pid pid' : Pid) :
    (s.workerSpawn srv pid).processes pid' =
      if pid' = pid then some { service := some srv } else s.processes pid' := by
  show Function.update _ _ _ _ = _
  rw [Function.update_apply]

theorem registry_workerSpawn (s : PreforkServer) (srv srv' : ServiceName) (pid : Pid) :
    (s.workerSpawn srv pid).serverWorkerRegistry srv' =
      if srv' = srv then pid :: s.serverWorkerRegistry srv else s.serverWorkerRegistry srv' := by
  show Function.update _ _ _ _ = _
  rw [Function.update_apply]

theorem runs_set {p q : Process} (hp : s.processes pid = some p) (hq : q.service = p.service) :
    (s.setProcess pid (some q)).Runs srv pid' ↔ s.Runs srv pid' := by
  unfold Runs
  rw [processes_set]
  split_ifs with h
  · subst h
    simp [hp, hq]
  · rfl

/-! ## One process for a service -/

/-- The invariant of the server: the registry of a service lists its unreaped children, of which
there is one at most, and the service in each child is well. -/
structure Ok (s : PreforkServer) : Prop where
  registry : ∀ srv pid, pid ∈ s.serverWorkerRegistry srv ↔ s.Runs srv pid
  one : ∀ srv, (s.serverWorkerRegistry srv).length ≤ 1
  state : ∀ pid p, s.processes pid = some p → p.state.Ok

theorem Ok.unique (h : s.Ok) (h1 : s.Runs srv pid) (h2 : s.Runs srv pid') : pid = pid' := by
  have h1 := (h.registry srv pid).2 h1
  have h2 := (h.registry srv pid').2 h2
  have hone := h.one srv
  revert h1 h2 hone
  rcases s.serverWorkerRegistry srv with _ | ⟨a, _ | ⟨b, l⟩⟩
  · exact fun h1 => absurd h1 List.not_mem_nil
  · intro h1 h2 _
    rw [List.mem_singleton.1 h1, List.mem_singleton.1 h2]
  · intro _ _ hone
    simp only [List.length_cons] at hone
    omega

/-- What leaves the processes and the registries as they are keeps the invariant. -/
theorem Ok.pc (h : s.Ok) (pc : MasterPc) : Ok { s with pc := pc } :=
  ⟨h.registry, h.one, h.state⟩

theorem Ok.setProcess (h : s.Ok) {p q : Process} (hp : s.processes pid = some p)
    (hq : q.service = p.service) (hs : q.state.Ok) : (s.setProcess pid (some q)).Ok where
  registry srv pid' := by
    rw [runs_set hp hq]
    exact h.registry srv pid'
  one := h.one
  state pid' p' hp' := by
    rw [processes_set] at hp'
    split_ifs at hp' with he
    · obtain rfl := Option.some.inj hp'
      exact hs
    · exact h.state pid' p' hp'

theorem mem_serverWorkerPop :
    pid' ∈ (s.serverWorkerPop pid).serverWorkerRegistry srv ↔
      pid' ∈ s.serverWorkerRegistry srv ∧ pid' ≠ pid := by
  show pid' ∈ (s.serverWorkerRegistry srv).filter _ ↔ _
  rw [List.mem_filter, decide_eq_true_eq]

theorem Ok.not_registered (h : s.Ok) (hp : s.processes pid = none) :
    pid ∉ s.serverWorkerRegistry srv := by
  intro hm
  obtain ⟨p, hp', -⟩ := (h.registry srv pid).1 hm
  rw [hp] at hp'
  cases hp'

/-- **Registry invariant.** -/
theorem Ok.move (h : s.Ok) (hm : Move services s e s') : s'.Ok := by
  cases hm with
  | @otherSpawn pid hpc hp =>
    refine ⟨fun srv pid' => ?_, h.one, fun pid' p' hp' => ?_⟩
    · rw [show (s.setProcess pid _).serverWorkerRegistry srv = s.serverWorkerRegistry srv from rfl,
        h.registry]
      unfold Runs
      rw [processes_set]
      split_ifs with he
      · subst he
        simp [hp]
      · rfl
    · rw [processes_set] at hp'
      split_ifs at hp' with he
      · obtain rfl := Option.some.inj hp'
        exact BackgroundService.Start.ok ⟨rfl, rfl, rfl⟩
      · exact h.state pid' p' hp'
  | processSpawn hpc => exact h.pc _
  | hasWorker hpc hr => exact h.pc _
  | done hpc => exact h.pc _
  | @workerSpawn srv todo pid hpc hr hp =>
    refine (Ok.pc ⟨fun srv' pid' => ?_, fun srv' => ?_, fun pid' p' hp' => ?_⟩ _ :
      Ok { s.workerSpawn srv pid with pc := _ })
    · unfold Runs
      rw [processes_workerSpawn, registry_workerSpawn]
      by_cases he : pid' = pid
      · -- the new child is registered with its own service only
        subst he
        rw [if_pos rfl]
        by_cases hs : srv' = srv
        · simp [hs]
        · simp [hs, h.not_registered hp, Ne.symm hs]
      · rw [if_neg he, ← Runs, ← h.registry]
        by_cases hs : srv' = srv
        · rw [if_pos hs, List.mem_cons, or_iff_right he, hs]
        · rw [if_neg hs]
    · rw [registry_workerSpawn]
      split_ifs
      · rw [hr]
        exact Nat.le_refl 1
      · exact h.one srv'
    · rw [processes_workerSpawn] at hp'
      split_ifs at hp' with he
      · obtain rfl := Option.some.inj hp'
        exact BackgroundService.Start.ok ⟨rfl, rfl, rfl⟩
      · exact h.state pid' p' hp'
  | raised hpc => exact h.pc _
  | @reap pid p hpc hp hd =>
    refine ⟨fun srv pid' => ?_, fun srv => Nat.le_trans (List.length_filter_le _ _) (h.one srv),
      fun pid' p' hp' => ?_⟩
    · rw [mem_serverWorkerPop,
        show (s.setProcess pid none).serverWorkerRegistry srv = s.serverWorkerRegistry srv from rfl,
        h.registry]
      show _ ↔ ∃ p, (s.setProcess pid none).processes pid' = some p ∧ _
      rw [processes_set]
      split_ifs with he
      · simp [he]
      · exact and_iff_left he
    · have hp' : (s.setProcess pid none).processes pid' = some p' := hp'
      rw [processes_set] at hp'
      split_ifs at hp' with he
      exact h.state pid' p' hp'
  | @workerPop pid hpc hp =>
    refine ⟨fun srv pid' => ?_, fun srv => Nat.le_trans (List.length_filter_le _ _) (h.one srv),
      h.state⟩
    rw [mem_serverWorkerPop, h.registry]
    refine and_iff_left_of_imp fun hr he => ?_
    subst he
    exact h.not_registered hp ((h.registry srv pid').2 hr)
  | service hp ha hs => exact h.setProcess hp rfl ((h.state _ _ hp).next hs)
  | @exit pid p hp => exact h.setProcess hp rfl (h.state pid p hp)

theorem init_ok : Ok {} := by
  refine ⟨fun srv pid => ?_, fun srv => Nat.zero_le 1, fun pid p hp => by cases hp⟩
  simp [Runs]

theorem Ok.path {ok : PreforkServer → PreforkEv → Prop} (h : s.Ok)
    (hp : Path (step services) ok s es s') : s'.Ok :=
  hp.inv (fun _ _ _ hs _ hst => hs.move (step_move hst)) h

/-! ## Every service has a process -/

/-- The services that `process_spawn` has still to go through. -/
def todo (s : PreforkServer) : List ServiceName :=
  match s.pc with
  | .idle => []
  | .processSpawn todo => todo

/-- A step within `process_spawn` that does not end it with an exception. -/
def spawning (s : PreforkServer) (e : PreforkEv) : Prop := s.pc ≠ .idle ∧ e ≠ .raised

instance (s : PreforkServer) (e : PreforkEv) : Decidable (s.spawning e) := by
  unfold spawning; infer_instance

theorem Move.runs_stays (hm : Move services s e s') (hs : s.spawning e) (h : s.Runs srv pid) :
    s'.Runs srv pid := by
  cases hm with
  | otherSpawn hpc => exact absurd hpc hs.1
  | processSpawn hpc => exact absurd hpc hs.1
  | hasWorker => exact h
  | done => exact h
  | @workerSpawn srv' todo pid' hpc hr hp =>
    obtain ⟨p, hp', hsrv⟩ := h
    refine ⟨p, ?_, hsrv⟩
    rw [processes_workerSpawn, if_neg fun he => ?_]
    · exact hp'
    · rw [he, hp] at hp'
      cases hp'
  | raised => exact absurd rfl hs.2
  | reap hpc => exact absurd hpc hs.1
  | workerPop hpc => exact absurd hpc hs.1
  | service hp ha hst =>
    refine (runs_set hp ?_).2 h
    rfl
  | exit hp =>
    refine (runs_set hp ?_).2 h
    rfl

theorem Move.covered (hm : Move services s e s') (hs : s.spawning e) (hok : s.Ok)
    (h : srv ∈ s.todo ∨ ∃ pid, s.Runs srv pid) : srv ∈ s'.todo ∨ ∃ pid, s'.Runs srv pid := by
  rcases h with h | ⟨pid, h⟩
  · cases hm with
    | otherSpawn hpc => exact absurd hpc hs.1
    | processSpawn hpc => exact absurd hpc hs.1
    | @hasWorker srv' todo hpc hr =>
      simp only [PreforkServer.todo, hpc] at h
      rcases List.mem_cons.1 h with rfl | h
      · obtain ⟨pid, hpid⟩ := List.exists_mem_of_ne_nil _ hr
        exact .inr ⟨pid, (hok.registry srv pid).1 hpid⟩
      · exact .inl h
    | done hpc =>
      simp only [PreforkServer.todo, hpc] at h
      exact absurd h List.not_mem_nil
    | @workerSpawn srv' todo pid hpc hr hp =>
      simp only [PreforkServer.todo, hpc] at h
      rcases List.mem_cons.1 h with rfl | h
      · refine .inr ⟨pid, { service := some srv }, ?_, rfl⟩
        rw [processes_workerSpawn, if_pos rfl]
      · exact .inl h
    | raised => exact absurd rfl hs.2
    | reap hpc => exact absurd hpc hs.1
    | workerPop hpc => exact absurd hpc hs.1
    | service => exact .inl h
    | exit => exact .inl h
  · exact .inr ⟨pid, hm.runs_stays hs h⟩

/-- **One process for a service.** In every run of the server a service has at most one child that
has not been reaped, all its live worker threads for a database are one thread of that child, and
each `process_spawn` that comes to its end leaves every service with a child. -/
theorem one_process_per_service (hp : Path (step services) anyStep {} es s) :
    (∀ srv pid pid', s.Runs srv pid → s.Runs srv pid' → pid = pid') ∧
    (∀ srv d pid i pid' i', s.Live srv d pid i → s.Live srv d pid' i' → pid = pid' ∧ i = i') ∧
    ∀ s₁ es' s₂, s.step services .processSpawn = some s₁ →
      Path (step services) spawning s₁ es' s₂ → s₂.pc = .idle →
      ∀ srv ∈ services, ∃ pid, s₂.Runs srv pid := by
  have hok : s.Ok := init_ok.path hp
  refine ⟨fun srv pid pid' => hok.unique, ?_, fun s₁ es' s₂ hs hp' hend srv hsrv => ?_⟩
  · rintro srv d pid i pid' i' ⟨p, hp, hsrv, -, hl⟩ ⟨p', hp', hsrv', -, hl'⟩
    obtain rfl := hok.unique ⟨p, hp, hsrv⟩ ⟨p', hp', hsrv'⟩
    obtain rfl := Option.some.inj (hp.symm.trans hp')
    exact ⟨rfl, (hok.state pid p hp).registered.unique hl hl'⟩
  · have hok₁ := hok.move (step_move hs)
    have h₁ : srv ∈ s₁.todo ∨ ∃ pid, s₁.Runs srv pid := by
      cases step_move hs
      exact .inl hsrv
    rcases hp'.inv_of (J := Ok) (I := fun s => srv ∈ s.todo ∨ ∃ pid, s.Runs srv pid)
      (fun _ _ _ hok _ h => hok.move (step_move h))
      (fun _ _ _ hok hI hsp h => (step_move h).covered hsp hok hI) hok₁ h₁ with h | h
    · simp only [todo, hend] at h
      exact absurd h List.not_mem_nil
    · exact h

/-- A service process dies with its worker thread, is reaped, and is forked again. -/
def respawned : List PreforkEv := [
  .processSpawn, .workerSpawn 10, .next,
  .service 10 (.stopWorkers []), .service 10 .tick, .service 10 .tick, .service 10 .tick,
  .service 10 (.spawnWorkers [⟨"crm", true⟩]), .service 10 (.spawnWorker "crm" true),
  .service 10 (.start "crm" .started), .exit 10, .reap 10]

theorem respawned_one : ∃ s s₁ s₂ pid, Path (step ["queue"]) anyStep {} respawned s ∧
    s.step ["queue"] .processSpawn = some s₁ ∧
    Path (step ["queue"]) spawning s₁ [.workerSpawn 11, .next] s₂ ∧ s₂.Runs "queue" pid ∧
    (∀ pid pid', s.Runs "queue" pid → s.Runs "queue" pid' → pid = pid') := by
  have hp : Path (step ["queue"]) anyStep {} respawned (reached _ _ _ _) :=
    path_reached (by decide +kernel)
  have hs : (reached (step ["queue"]) anyStep {} respawned).step ["queue"] .processSpawn =
      some (reached _ anyStep _ _) := step_reached (by decide +kernel)
  have hp' : Path (step ["queue"]) spawning
      (reached (step ["queue"]) anyStep {} (respawned ++ [.processSpawn]))
      [.workerSpawn 11, .next] (reached _ _ _ _) := path_reached (by decide +kernel)
  obtain ⟨hone, -, hall⟩ := one_process_per_service hp
  obtain ⟨pid, hpid⟩ := hall _ _ _ hs hp' rfl "queue" (by decide)
  exact ⟨_, _, _, pid, hp, hs, hp', hpid, hone "queue"⟩

end PreforkServer

end GenericBackgroundService
