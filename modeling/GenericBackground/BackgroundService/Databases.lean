import GenericBackground.BackgroundService.Workers

/-!
# The databases of a service

A service works on the databases of the configuration, or else on those that the server lists.
Before each loop of a beat that needs to know, it probes them one by one: a database is active if it
can be reached, has the tables of Odoo, no module is about to be installed, updated or removed, and
the module that the service requires is installed.

A full beat brings the workers in line with the probes (`beat_converges`): the live workers of all
other databases have been told to stop, those of active databases are left alone, and each active
database whose worker comes up has one. With the two probes of a beat answered by the same server,
that is the set of active databases.
-/

namespace GenericBackgroundService

open Lts

/-! ## Probes -/

/-- What is behind the name of a database. -/
inductive Database where
  /-- `OperationalError` on connecting or on a query. -/
  | unreachable
  /-- `UndefinedTable`: there is no `ir_module_module`. -/
  | foreignSchema
  /-- The names and states of its modules. -/
  | odoo (modules : List (String × String))
  deriving DecidableEq, Repr

/-- `list_dbs` raises `OperationalError` where `listed` is `none`. -/
structure DbServer where
  /-- The names in the option `db_name`. -/
  dbName : List DbName := []
  listed : Option (List DbName) := none
  database : DbName → Database := fun _ => .unreachable

def DbServer.dbList (v : DbServer) : List DbName :=
  if v.dbName = [] then v.listed.getD [] else v.dbName

/-- `state LIKE 'to %'`. -/
def likeTo (state : String) : Bool := ("to ".toList).isPrefixOf state.toList

/-- `_check_is_db_active_cr`, on the modules of the database: the state and the message. The empty
name requires no module. -/
def checkIsDbActiveCr (requireModule : Option String) (modules : List (String × String)) :
    Bool × String :=
  if modules.any fun m => likeTo m.2 then (false, "module install/update in progress")
  else match requireModule.filter (· ≠ "") with
    | some name =>
      if modules.any fun m => m.2 = "installed" ∧ m.1 = name then (true, "ok")
      else (false, "required module " ++ name ++ " not installed")
    | none => (true, "ok")

def checkIsDbActive (requireModule : Option String) : Database → Bool × String
  | .unreachable => (false, "database is not active")
  | .foreignSchema => (false, "database seems to be not odoo database")
  | .odoo modules => checkIsDbActiveCr requireModule modules

/-- `_probe_databases`; the messages are only logged. -/
def DbServer.probeDatabases (requireModule : Option String) (v : DbServer) : List DatabaseProbe :=
  v.dbList.map fun d => ⟨d, (checkIsDbActive requireModule (v.database d)).1⟩

def DbServer.active (requireModule : Option String) (v : DbServer) (d : DbName) : Bool :=
  d ∈ v.dbList ∧ (checkIsDbActive requireModule (v.database d)).1 = true

theorem DbServer.mem_probeDatabases {requireModule : Option String} {v : DbServer}
    {p : DatabaseProbe} : p ∈ v.probeDatabases requireModule ↔
      p.dbname ∈ v.dbList ∧ p.state = (checkIsDbActive requireModule (v.database p.dbname)).1 := by
  unfold probeDatabases
  rw [List.mem_map]
  constructor
  · rintro ⟨d, hd, rfl⟩
    exact ⟨hd, rfl⟩
  · rintro ⟨hd, hs⟩
    refine ⟨p.dbname, hd, ?_⟩
    rw [← hs]

/-- All probes of one database agree, so it does not matter which of them counts. -/
theorem DbServer.probedActive_probeDatabases (requireModule : Option String) (v : DbServer)
    (d : DbName) : BackgroundService.probedActive (v.probeDatabases requireModule) d =
      v.active requireModule d := by
  unfold BackgroundService.probedActive
  cases hf : (v.probeDatabases requireModule).reverse.find? (·.dbname = d) with
  | none =>
    have hd : d ∉ v.dbList := fun hd => by
      have := List.find?_eq_none.1 hf ⟨d, (checkIsDbActive requireModule (v.database d)).1⟩
        (List.mem_reverse.2 (mem_probeDatabases.2 ⟨hd, rfl⟩))
      simp at this
    simp [active, hd]
  | some p =>
    obtain rfl : p.dbname = d := by simpa using List.find?_some hf
    obtain ⟨hd, hs⟩ := mem_probeDatabases.1 (List.mem_reverse.1 (List.mem_of_find?_eq_some hf))
    simp [active, hd, hs]

namespace BackgroundService

variable {s s' s₀ s₁ s₂ : BackgroundService} {e : ServiceEv} {es : List ServiceEv} {d : DbName}
  {i j : ℕ} {probes : List DatabaseProbe}

/-! ## Who is told to stop -/

/-- `stop_workers` has still to come to worker `i` of database `d`. -/
def Ahead (d : DbName) (i : ℕ) : Pc → Prop
  | .stopWorkers _ todo => d ∈ todo
  | .workerStop j _ todo => i = j ∨ d ∈ todo
  | _ => False

def goesBy (probes : List DatabaseProbe) : Pc → Prop
  | .stopWorkers probes' _ => probes' = probes
  | .workerStop _ probes' _ => probes' = probes
  | _ => True

def Unwanted (probes : List DatabaseProbe) (s : BackgroundService) (i : ℕ) : Prop :=
  ∃ d, s.threads[i]?.map Worker.dbname = some d ∧ probedActive probes d = false

/-- What the signals of a beat have done so far: `probes` are those of `stop_workers`, and `s₀` is
the state in which it began. -/
structure Signals (probes : List DatabaseProbe) (s₀ : BackgroundService) (es : List ServiceEv)
    (s : BackgroundService) : Prop where
  goesBy : goesBy probes s.pc
  old : s.pc.beforeProbe = true → s.threads.length = s₀.threads.length
  grown : s₀.threads.length ≤ s.threads.length
  told : ∀ d i, s.Live d i → i < s₀.threads.length → probedActive probes d = false →
    s.isStopped i = true ∨ Ahead d i s.pc
  target : ∀ j p todo, s.pc = .workerStop j p todo → j < s₀.threads.length ∧ s.Unwanted probes j
  spared : ∀ i, s.isStopped i = true →
    s₀.isStopped i = true ∨ i < s₀.threads.length ∧ s.Unwanted probes i
  starting : ∀ i todo, s.pc = .start i todo → s₀.threads.length ≤ i
  toSpawn : ∀ p ∈ s.pc.toSpawn, ∃ probes', .spawnWorkers probes' ∈ es ∧ p ∈ probes'
  spawned : ∀ i d, s₀.threads.length ≤ i → s.threads[i]?.map Worker.dbname = some d →
    ∃ probes', .spawnWorkers probes' ∈ es ∧ ⟨d, true⟩ ∈ probes'

theorem tick_stopWorkers {todo : List DbName} (hpc : s.pc = .stopWorkers probes (d :: todo))
    (h : s.tick = some s') :
    (s' = { s with pc := .stopWorkers probes todo } ∧
      (probedActive probes d = true ∨ s.toStop d = none)) ∨
    ∃ i, s' = { s with pc := .workerStop i probes todo } ∧ s.toStop d = some i ∧
      probedActive probes d = false := by
  simp only [tick, hpc] at h
  split at h
  · next ha => exact .inl ⟨(Option.some.inj h).symm, .inl ha⟩
  · next ha =>
    split at h
    · next i hi => exact .inr ⟨i, (Option.some.inj h).symm, hi, Bool.eq_false_iff.2 ha⟩
    · next hn => exact .inl ⟨(Option.some.inj h).symm, .inr hn⟩

theorem spawnWorker_active {ok : Bool} (h : s.step (.spawnWorker d ok) = some s') :
    ⟨d, true⟩ ∈ s.pc.toSpawn := by
  simp only [step] at h
  split at h
  · next p todo hpc =>
    split at h
    · next hp =>
      obtain ⟨hst, -, rfl⟩ := hp
      rw [hpc]
      exact List.mem_cons.2 (.inl (by rw [← hst]))
    · cases h
  · cases h

theorem Signals.quiet (h : Signals probes s₀ es s) (ht : s'.threads = s.threads)
    (hg : BackgroundService.goesBy probes s.pc → BackgroundService.goesBy probes s'.pc)
    (hold : s'.pc.beforeProbe = true → s.pc.beforeProbe = true)
    (htold : ∀ d i, s.Live d i → probedActive probes d = false → Ahead d i s.pc →
      s.isStopped i = true ∨ Ahead d i s'.pc)
    (htarget : ∀ j p todo, s'.pc = .workerStop j p todo →
      j < s.threads.length ∧ s.Unwanted probes j ∧ s.pc.beforeProbe = true)
    (hstart : ∀ i todo, s'.pc ≠ .start i todo)
    (hspawn : ∀ p ∈ s'.pc.toSpawn,
      p ∈ s.pc.toSpawn ∨ ∃ probes', e = .spawnWorkers probes' ∧ p ∈ probes') :
    Signals probes s₀ (es ++ [e]) s' := by
  have hstop : ∀ i, s'.isStopped i = s.isStopped i := fun i => by unfold isStopped; rw [ht]
  have hunw : ∀ i, s'.Unwanted probes i ↔ s.Unwanted probes i := fun i => by
    unfold Unwanted; rw [ht]
  have hlive : ∀ d i, s'.Live d i ↔ s.Live d i := fun d i => by unfold Live; rw [ht]
  refine ⟨hg h.goesBy, fun hb => ?_, ?_, fun d i hi hl ha => ?_, fun j p todo hj => ?_,
    fun i hi => ?_, fun i todo hi => absurd hi (hstart i todo), fun p hp => ?_,
    fun i d hi hd => ?_⟩
  · rw [ht]
    exact h.old (hold hb)
  · rw [ht]
    exact h.grown
  · rw [hstop]
    rcases h.told d i ((hlive d i).1 hi) hl ha with hs | hahead
    · exact .inl hs
    · exact htold d i ((hlive d i).1 hi) ha hahead
  · obtain ⟨hlt, hu, hb⟩ := htarget j p todo hj
    exact ⟨(h.old hb).symm ▸ hlt, (hunw j).2 hu⟩
  · rw [hstop] at hi
    rw [hunw]
    exact h.spared i hi
  · rcases hspawn p hp with hp | ⟨probes', rfl, hpm⟩
    · obtain ⟨probes', hm, hpm⟩ := h.toSpawn p hp
      exact ⟨probes', List.mem_append_left _ hm, hpm⟩
    · exact ⟨probes', List.mem_append_right _ List.mem_cons_self, hpm⟩
  · rw [ht] at hd
    obtain ⟨probes', hm, hpm⟩ := h.spawned i d hi hd
    exact ⟨probes', List.mem_append_left _ hm, hpm⟩

theorem Signals.modify (h : Signals probes s₀ es s) {f : Worker → Worker} {pc : Pc}
    (hf : ∀ w, (f w).stopped = w.stopped) (hf' : ∀ w, (f w).dbname = w.dbname)
    (hlive : ∀ d j, (s.modifyWorker i f).Live d j → j < s₀.threads.length →
      probedActive probes d = false → s.isStopped j = true ∨ Ahead d j pc)
    (hg : BackgroundService.goesBy probes pc)
    (hold : pc.beforeProbe = true → s.pc.beforeProbe = true)
    (htarget : ∀ j p todo, pc = .workerStop j p todo → s.pc = .workerStop j p todo)
    (hstart : ∀ j todo, pc = .start j todo → s.pc = .start j todo)
    (hspawn : ∀ p ∈ pc.toSpawn, p ∈ s.pc.toSpawn) :
    Signals probes s₀ (es ++ [e]) { s.modifyWorker i f with pc := pc } := by
  have hlen : (s.modifyWorker i f).threads.length = s.threads.length := List.length_modify ..
  have hunw : ∀ j, (s.modifyWorker i f).Unwanted probes j ↔ s.Unwanted probes j := fun j => by
    unfold Unwanted; rw [dbname_modify hf']
  refine ⟨hg, fun hb => ?_, ?_, fun d j hj hl ha => ?_, fun j p todo hj => ?_, fun j hj => ?_,
    fun j todo hj => h.starting j todo (hstart j todo hj), fun p hp => ?_, fun j d hj hd => ?_⟩
  · exact hlen.trans (h.old (hold hb))
  · exact le_of_le_of_eq h.grown hlen.symm
  · have : (s.modifyWorker i f).isStopped j = s.isStopped j := isStopped_modify hf
    exact (hlive d j hj hl ha).imp (fun hs => this.trans hs) id
  · obtain ⟨hlt, hu⟩ := h.target j p todo (htarget j p todo hj)
    exact ⟨hlt, (hunw j).2 hu⟩
  · have hj : s.isStopped j = true := (isStopped_modify hf).symm.trans hj
    exact (h.spared j hj).imp id fun hu => ⟨hu.1, (hunw j).2 hu.2⟩
  · obtain ⟨probes', hm, hpm⟩ := h.toSpawn p (hspawn p hp)
    exact ⟨probes', List.mem_append_left _ hm, hpm⟩
  · have hd : s.threads[j]?.map Worker.dbname = some d := (dbname_modify hf').symm.trans hd
    obtain ⟨probes', hm, hpm⟩ := h.spawned j d hj hd
    exact ⟨probes', List.mem_append_left _ hm, hpm⟩

theorem Signals.move (h : Signals probes s₀ es s) (hok : s.Ok) (hs : s.step e = some s')
    (hin : e.withinBeat = true) : Signals probes s₀ (es ++ [e]) s' := by
  have hm := step_move hs
  cases hm with
  | beat probes _ => cases hin
  | @stopNext probes' d todo hpc =>
    have hgb : probes' = probes := by simpa [BackgroundService.goesBy, hpc] using h.goesBy
    rcases tick_stopWorkers hpc hs with ⟨-, hcase⟩ | ⟨i, heq, -⟩
    · refine h.quiet rfl (fun _ => hgb) (by simp [hpc, Pc.beforeProbe]) (fun d' i hi ha hah => ?_)
        (by simp) (by simp) (by simp [Pc.toSpawn])
      simp only [Ahead, hpc, List.mem_cons] at hah ⊢
      rcases hah with rfl | hah
      · -- an unwanted live worker is passed over only if it has been told
        rcases hcase with hact | hnone
        · rw [hgb, ha] at hact
          cases hact
        · rw [hok.registered.toStop hi] at hnone
          split_ifs at hnone with hst
          exact .inl hst
      · exact .inr hah
    · cases congrArg BackgroundService.pc heq
  | @stopFound probes' d todo j hpc =>
    have hgb : probes' = probes := by simpa [BackgroundService.goesBy, hpc] using h.goesBy
    rcases tick_stopWorkers hpc hs with ⟨heq, -⟩ | ⟨i, heq, hto, ha⟩
    · cases congrArg BackgroundService.pc heq
    · obtain rfl : j = i := (Pc.workerStop.inj (congrArg BackgroundService.pc heq)).1
      have hkey := hok.keyed d j (Option.filter_eq_some_iff.1 hto).1
      refine h.quiet rfl (fun _ => hgb) (by simp [hpc, Pc.beforeProbe])
        (fun d' i hi _ hah => ?_) (fun j' p todo' hj => ?_) (by simp) (by simp [Pc.toSpawn])
      · simp only [Ahead, hpc, List.mem_cons] at hah ⊢
        rcases hah with rfl | hah
        · rw [hok.registered.toStop hi] at hto
          split_ifs at hto with hst
          exact .inr (.inl (Option.some.inj hto))
        · exact .inr (.inr hah)
      · obtain ⟨rfl, -⟩ := Pc.workerStop.inj hj
        obtain ⟨w, hw, -⟩ := Option.map_eq_some_iff.1 hkey
        exact ⟨(List.getElem?_eq_some_iff.1 hw).1, ⟨d, hkey, hgb ▸ ha⟩,
          by simp [hpc, Pc.beforeProbe]⟩
  | stopDone hpc =>
    exact h.quiet rfl (fun _ => trivial) (by simp [hpc, Pc.beforeProbe])
      (by simp [Ahead, hpc]) (by simp) (by simp) (by simp [Pc.toSpawn])
  | @workerStop j probes' todo hpc =>
    have hgb : probes' = probes := by simpa [BackgroundService.goesBy, hpc] using h.goesBy
    have hlen : (s.modifyWorker j Worker.workerStop).threads.length = s.threads.length :=
      List.length_modify ..
    have hunw : ∀ i, (s.modifyWorker j Worker.workerStop).Unwanted probes i ↔
        s.Unwanted probes i := fun i => by
      unfold Unwanted; rw [dbname_modify (f := Worker.workerStop) fun _ => rfl]
    have hold := h.old (by simp [hpc, Pc.beforeProbe])
    obtain ⟨hjlt, hju⟩ := h.target j _ _ hpc
    refine ⟨hgb, fun _ => hlen.trans hold, le_of_le_of_eq h.grown hlen.symm,
      fun d i hi hl ha => ?_, by simp, fun i hi => ?_, by simp, by simp [Pc.toSpawn],
      fun i d hi hd => ?_⟩
    · have hi' := live_workerStop.1 hi
      rcases h.told d i hi' hl ha with hst | hah
      · exact .inl (isStopped_workerStop.2 (.inl hst))
      · simp only [Ahead, hpc] at hah
        rcases hah with rfl | hah
        · exact .inl (isStopped_workerStop.2 (.inr ⟨rfl, hold.symm ▸ hjlt⟩))
        · exact .inr hah
    · rcases isStopped_workerStop.1 hi with hst | ⟨rfl, -⟩
      · exact (h.spared i hst).imp id fun hu => ⟨hu.1, (hunw i).2 hu.2⟩
      · exact .inr ⟨hjlt, (hunw i).2 hju⟩
    · have hd : s.threads[i]?.map Worker.dbname = some d :=
        (dbname_modify (f := Worker.workerStop) fun _ => rfl).symm.trans hd
      obtain ⟨probes', hm, hpm⟩ := h.spawned i d hi hd
      exact ⟨probes', List.mem_append_left _ hm, hpm⟩
  | cleanAlive hpc _ =>
    exact h.quiet rfl (fun _ => trivial) (by simp [hpc, Pc.beforeProbe])
      (by simp [Ahead, hpc]) (by simp) (by simp) (by simp [Pc.toSpawn])
  | cleanDead hpc _ =>
    exact h.quiet rfl (fun _ => trivial) (by simp [hpc, Pc.beforeProbe])
      (by simp [Ahead, hpc]) (by simp) (by simp) (by simp [Pc.toSpawn])
  | cleanDone hpc =>
    exact h.quiet rfl (fun _ => trivial) (by simp [hpc, Pc.beforeProbe])
      (by simp [Ahead, hpc]) (by simp) (by simp) (by simp [Pc.toSpawn])
  | del hpc _ =>
    exact h.quiet rfl (fun _ => trivial) (by simp [hpc, Pc.beforeProbe])
      (by simp [Ahead, hpc]) (by simp) (by simp) (by simp [Pc.toSpawn])
  | keyError hpc _ =>
    exact h.quiet rfl (fun _ => trivial) (by simp [hpc, Pc.beforeProbe])
      (by simp [Ahead, hpc]) (by simp) (by simp) (by simp [Pc.toSpawn])
  | delDone hpc =>
    exact h.quiet rfl (fun _ => trivial) (by simp [hpc, Pc.beforeProbe])
      (by simp [Ahead, hpc]) (by simp) (by simp) (by simp [Pc.toSpawn])
  | probe probes' hpc =>
    exact h.quiet rfl (fun _ => trivial) (by simp [Pc.beforeProbe])
      (by simp [Ahead, hpc]) (by simp) (by simp) fun p hp => .inr ⟨probes', rfl, hp⟩
  | skip hpc _ =>
    exact h.quiet rfl (fun _ => trivial) (by simp [Pc.beforeProbe])
      (by simp [Ahead, hpc]) (by simp) (by simp) (by simp +contextual [Pc.toSpawn, hpc])
  | spawnDone hpc =>
    exact h.quiet rfl (fun _ => trivial) (by simp [Pc.beforeProbe])
      (by simp [Ahead, hpc]) (by simp) (by simp) (by simp [Pc.toSpawn])
  | @constructed p todo hpc hd =>
    have hact := spawnWorker_active hs
    have hunw : ∀ i, i < s.threads.length → (Unwanted probes ⟨s.threads ++ [{ dbname := p.dbname }],
        s.workers.set p.dbname s.threads.length, .start s.threads.length todo⟩ i ↔
        s.Unwanted probes i) := fun i hi => by
      unfold Unwanted; rw [List.getElem?_append_left hi]
    refine ⟨trivial, by simp [Pc.beforeProbe], ?_, fun d i hi hl ha => .inl ?_, by simp,
      fun i hi => ?_, fun i todo' hi => ?_, fun q hq => ?_, fun i d hi hd => ?_⟩
    · exact Nat.le_trans h.grown (by simp)
    · rw [isStopped_constructed]
      exact (h.told d i (live_constructed.1 hi) hl ha).resolve_right (by simp [Ahead, hpc])
    · rw [isStopped_constructed] at hi
      refine (h.spared i hi).imp id fun hu => ⟨hu.1, (hunw i ?_).2 hu.2⟩
      exact Nat.lt_of_lt_of_le hu.1 h.grown
    · exact (Pc.start.inj hi).1 ▸ h.grown
    · obtain ⟨probes', hm, hpm⟩ := h.toSpawn q (by rw [hpc]; exact List.mem_cons_of_mem _ hq)
      exact ⟨probes', List.mem_append_left _ hm, hpm⟩
    · by_cases hlt : i < s.threads.length
      · rw [List.getElem?_append_left hlt] at hd
        obtain ⟨probes', hm, hpm⟩ := h.spawned i d hi hd
        exact ⟨probes', List.mem_append_left _ hm, hpm⟩
      · -- the new worker
        have hdd : p.dbname = d := by
          rw [List.getElem?_append_right (Nat.le_of_not_lt hlt)] at hd
          obtain ⟨w, hw, rfl⟩ := Option.map_eq_some_iff.1 hd
          rw [List.mem_singleton.1 (List.mem_of_getElem? hw)]
        obtain ⟨probes', hm, hpm⟩ := h.toSpawn _ hact
        exact ⟨probes', List.mem_append_left _ hm, hdd ▸ hpm⟩
  | constructorRaised hpc =>
    exact h.quiet rfl (fun _ => trivial) (by simp [Pc.beforeProbe])
      (by simp [Ahead, hpc]) (by simp) (by simp) (by simp +contextual [Pc.toSpawn, hpc])
  | startRaised hpc _ =>
    exact h.quiet rfl (fun _ => trivial) (by simp [Pc.beforeProbe])
      (by simp [Ahead, hpc]) (by simp) (by simp) (by simp [Pc.toSpawn, hpc])
  | @started i todo d outcome hpc hd =>
    refine h.modify (f := Worker.started) (fun _ => rfl) (fun _ => rfl) (fun d' j hj hl ha => ?_)
      trivial (by simp [Pc.beforeProbe]) (by simp) (by simp) (by simp [Pc.toSpawn, hpc])
    rcases live_started.1 hj with hj | ⟨rfl, -⟩
    · exact .inl ((h.told d' j hj hl ha).resolve_right (by simp [Ahead, hpc]))
    · -- the worker that starts is new
      exact absurd (h.starting j todo hpc) (Nat.not_le_of_lt hl)
  | @die i ha =>
    show Signals probes s₀ _ { s.modifyWorker i Worker.died with pc := s.pc }
    exact h.modify (fun _ => rfl) (fun _ => rfl)
      (fun d j hj hl ha => h.told d j (live_died.1 hj).1 hl ha) h.goesBy id (fun _ _ _ hj => hj)
      (fun _ _ hj => hj) (fun _ hp => hp)

/-! ## A full beat -/

/-- The beat goes on, and its second probe is answered by the server as it is. -/
def Answers (requireModule : Option String) (v : DbServer) (_ : BackgroundService) :
    ServiceEv → Prop
  | .stopWorkers _ => False
  | .spawnWorkers probes => probes = v.probeDatabases requireModule
  | _ => True

instance (requireModule : Option String) (v : DbServer) (s : BackgroundService) (e : ServiceEv) :
    Decidable (Answers requireModule v s e) := by
  cases e <;> unfold Answers <;> infer_instance

theorem Answers.withinBeat {requireModule : Option String} {v : DbServer}
    (h : Answers requireModule v s e) : e.withinBeat = true := by
  cases e with
  | stopWorkers probes => exact h.elim
  | _ => rfl

def afterProbe : Pc → Bool
  | .spawnWorkers _ => true
  | .start _ _ => true
  | .sleep => true
  | _ => false

theorem probed_of_afterProbe {ok : BackgroundService → ServiceEv → Prop}
    (h₁ : s₁.pc.beforeProbe = true) (hp : Path step ok s₁ es s) :
    afterProbe s.pc = true → ∃ probes, .spawnWorkers probes ∈ es := by
  refine hp.inv_history (I := fun es s => afterProbe s.pc = true →
    ∃ probes, .spawnWorkers probes ∈ es) (fun es s e s' _ hI _ hs haft => ?_) (fun haft => ?_)
  · have goesOn : afterProbe s.pc = true → ∃ probes, .spawnWorkers probes ∈ es ++ [e] :=
      fun h => (hI h).imp fun _ hm => List.mem_append_left _ hm
    cases step_move hs with
    | probe probes _ => exact ⟨probes, List.mem_append_right _ List.mem_cons_self⟩
    | skip hpc => exact goesOn (by rw [hpc]; rfl)
    | spawnDone hpc => exact goesOn (by rw [hpc]; rfl)
    | constructed hpc => exact goesOn (by rw [hpc]; rfl)
    | constructorRaised hpc => exact goesOn (by rw [hpc]; rfl)
    | startRaised hpc => exact goesOn (by rw [hpc]; rfl)
    | started hpc => exact goesOn (by rw [hpc]; rfl)
    | die => exact goesOn haft
    | _ => cases haft
  · have key : ∀ pc : Pc, pc.beforeProbe = true → ¬ afterProbe pc = true := by
      intro pc
      cases pc <;> simp [Pc.beforeProbe, afterProbe]
    exact absurd haft (key s₁.pc h₁)

/-- **A beat brings the workers in line with the databases.** After a full beat both of whose probes
are answered by the same server, in any run of the service and with threads dying at any moment:
every live worker of a database that is not active has been told to stop; a live worker of an active
one is told to stop only if it was before the beat; and every active database whose constructor and
start did not fail has a registered worker, which has been alive during the beat. -/
theorem beat_converges {es₀ : List ServiceEv} {requireModule : Option String} {v : DbServer}
    (h0 : s₀.Start) (hp : Path step anyStep s₀ es₀ s)
    (hs : s.step (.stopWorkers (v.probeDatabases requireModule)) = some s₁)
    (hb : Path step (Answers requireModule v) s₁ es s₂) (hend : s₂.pc = .sleep) :
    (∀ d i, s₂.Live d i → v.active requireModule d = false → s₂.isStopped i = true) ∧
    (∀ d i, s₂.Live d i → v.active requireModule d = true → s₂.isStopped i = true →
      s.isStopped i = true) ∧
    ∀ d, v.active requireModule d = true → .spawnWorker d false ∉ es → .start d .raised ∉ es →
      ∃ i, s₂.workers.get d = some i ∧ Sometime step (fun s => s.Live d i) s₁ es := by
  have hok : s.Ok := h0.ok.path hp
  have hok₁ := hok.next hs
  have hbeat : Path step (fun _ e => e.withinBeat = true) s₁ es s₂ :=
    hb.imp fun _ _ h => h.withinBeat
  have hpc₁ : s₁ =
      { s with pc := .stopWorkers (v.probeDatabases requireModule) s.workers.keys } := by
    cases step_move hs
    rfl
  have hsig : Signals (v.probeDatabases requireModule) s es s₂ := by
    refine hbeat.inv_history (fun es s' e s'' hpre h hin hs' =>
      h.move (hok₁.path hpre) hs' hin) ?_
    rw [hpc₁]
    refine ⟨rfl, fun _ => rfl, Nat.le_refl _, fun d i hi _ _ => .inr ?_, by simp,
      fun i hi => .inl hi, by simp, by simp [Pc.toSpawn], fun i d hi hd => ?_⟩
    · exact Dict.mem_keys_iff.2 ⟨i, hok.registered d i hi⟩
    · obtain ⟨w, hw, -⟩ := Option.map_eq_some_iff.1 hd
      exact absurd (List.getElem?_eq_some_iff.1 hw).1 (Nat.not_lt_of_le hi)
  -- there is one second probe, the one of the server
  have hprobes : ∀ probes, .spawnWorkers probes ∈ es → probes = v.probeDatabases requireModule := by
    refine hb.inv_history (I := fun es _ => ∀ probes, .spawnWorkers probes ∈ es →
      probes = v.probeDatabases requireModule) (fun es s' e s'' _ h hans _ probes hm => ?_)
      (fun _ hm => absurd hm List.not_mem_nil)
    rcases List.mem_append.1 hm with hm | hm
    · exact h probes hm
    · obtain rfl := List.mem_singleton.1 hm
      exact hans
  refine ⟨fun d i hi ha => ?_, fun d i hi ha hst => ?_, fun d ha hcon hstart => ?_⟩
  · by_cases hlt : i < s.threads.length
    · refine (hsig.told d i hi hlt ?_).resolve_right (by simp [Ahead, hend])
      rw [DbServer.probedActive_probeDatabases, ha]
    · -- a worker of this beat is for an active database
      obtain ⟨w, hw, hd, -⟩ := hi
      obtain ⟨probes, hm, hpm⟩ := hsig.spawned i d (Nat.le_of_not_lt hlt)
        (by rw [hw]; exact congrArg some hd)
      rw [hprobes probes hm, DbServer.mem_probeDatabases] at hpm
      obtain ⟨hlist, hstate⟩ := hpm
      have : v.active requireModule d = true := decide_eq_true ⟨hlist, hstate.symm⟩
      rw [ha] at this
      cases this
  · rcases hsig.spared i hst with hold | ⟨-, d', hd', hn⟩
    · exact hold
    · obtain ⟨w, hw, rfl, -⟩ := hi
      obtain rfl : w.dbname = d' := by simpa [hw] using hd'
      rw [DbServer.probedActive_probeDatabases, ha] at hn
      cases hn
  · obtain ⟨probes, hm⟩ := probed_of_afterProbe (by rw [hpc₁]; rfl) hb (by rw [hend]; rfl)
    obtain rfl := hprobes probes hm
    have hB := BeatSoFar.path hok hs hbeat
    obtain ⟨hlist, hact⟩ := of_decide_eq_true ha
    have hkey : d ∈ s₂.workers.keys := by
      rcases hB.probed _ hm ⟨d, true⟩ (DbServer.mem_probeDatabases.2 ⟨hlist, hact.symm⟩) rfl
        with h1 | h1 | h1
      · simp [hend, Pc.toSpawn] at h1
      · exact h1
      · exact absurd h1 hcon
    obtain ⟨i, hi⟩ := Dict.mem_keys_iff.1 hkey
    refine ⟨i, hi, ?_⟩
    rcases hB.served d i hi with h1 | h1 | h1
    · simp [hend, Pc.Pending] at h1
    · exact h1
    · exact absurd h1 hstart

/-- A server with a database under update, one without the module, and an active one. -/
def threeDatabases : DbServer where
  listed := some ["crm", "shop", "wiki"]
  database d := match d with
    | "crm" => .odoo [("base", "installed"), ("generic_task_queue", "to upgrade")]
    | "shop" => .odoo [("base", "installed"), ("generic_task_queue", "installed")]
    | _ => .odoo [("base", "installed")]

/-- A worker runs for a database that is then updated. -/
def crmWorks : List ServiceEv := [
  .stopWorkers [], .tick, .tick, .tick, .spawnWorkers [⟨"crm", true⟩],
  .spawnWorker "crm" true, .start "crm" .started, .tick]

def crmUpdated : List ServiceEv := [
  .tick, .tick, .tick, .tick, .tick, .tick,
  .spawnWorkers (threeDatabases.probeDatabases (some "generic_task_queue")),
  .tick, .spawnWorker "shop" true, .start "shop" .started, .tick, .tick]

theorem crmUpdated_converges : ∃ s₂ : BackgroundService, s₂.isStopped 0 = true ∧
    ∃ i, s₂.workers.get "shop" = some i := by
  let v := threeDatabases
  have hp : Path step anyStep {} crmWorks _ := path_reached (by decide +kernel)
  have hs : (reached step anyStep {} crmWorks).step
      (.stopWorkers (v.probeDatabases (some "generic_task_queue"))) =
        some (reached _ anyStep _ _) :=
    step_reached (by decide +kernel)
  have hb : Path step (Answers (some "generic_task_queue") v) (reached step anyStep {} (crmWorks ++
      [.stopWorkers (v.probeDatabases (some "generic_task_queue"))])) crmUpdated _ :=
    path_reached (by decide +kernel)
  obtain ⟨h1, -, h3⟩ := beat_converges ⟨rfl, rfl, rfl⟩ hp hs hb (by decide +kernel)
  obtain ⟨i, hi, -⟩ := h3 "shop" (by decide +kernel) (by decide) (by decide)
  exact ⟨_, h1 "crm" 0 ⟨_, rfl, by decide +kernel, by decide +kernel⟩ (by decide +kernel), i, hi⟩

end BackgroundService

end GenericBackgroundService
