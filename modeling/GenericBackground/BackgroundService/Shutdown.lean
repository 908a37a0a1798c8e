import GenericBackground.BackgroundService.Workers

/-!
# The end of a service

`run` of a service is its loop and, in a `finally`, `shutdown_workers`: it tells every registered
worker to stop, and then joins them one after the other, each with a timeout. The loop may be left
anywhere: at a test of the stop event, by an exception, by a `KeyboardInterrupt`. Threads go on
dying in the meantime.

A live worker is registered at every moment of the loop, also between the statements of a beat. So
none is overlooked: once all signals are sent, every live worker has its stop event set, and a
worker that is still alive when `run` returns is one whose join has timed out.
-/

namespace GenericBackgroundService

open Lts

/-- Where `run` is: in its loop, or in `shutdown_workers`. -/
inductive RunPc where
  | loop
  | stopWorker (todo : List (DbName × ℕ)) (waitWorkers : List ℕ)
  | workerStop (worker : ℕ) (todo : List (DbName × ℕ)) (waitWorkers : List ℕ)
  | join (waitWorkers : List ℕ)
  | returned
  /-- A thread that was never started cannot be joined. -/
  | joinRaised
  | interrupted
  deriving DecidableEq, Repr

structure ServiceRun where
  service : BackgroundService := {}
  pc : RunPc := .loop

inductive RunEv where
  | service (e : ServiceEv)
  /-- The loop is left. -/
  | leave
  /-- The next statement of `shutdown_workers`. -/
  | tick
  | join (worker : ℕ) (timedOut : Bool)
  /-- A `KeyboardInterrupt` in the midst of `shutdown_workers`. -/
  | interrupt
  deriving DecidableEq, Repr

def ServiceEv.isDeath : ServiceEv → Bool
  | .die _ => true
  | _ => false

def RunPc.shuttingDown : RunPc → Bool
  | .stopWorker _ _ => true
  | .workerStop _ _ _ => true
  | .join _ => true
  | _ => false

def RunPc.signalled : RunPc → Bool
  | .join _ => true
  | .returned => true
  | .joinRaised => true
  | _ => false

namespace ServiceRun

def tick (s : ServiceRun) : Option ServiceRun :=
  match s.pc with
  | .stopWorker ((d, i) :: todo) wait => match s.service.toStop d with
    | some j => some { s with pc := .workerStop j todo (wait ++ [i]) }
    | none => some { s with pc := .stopWorker todo (wait ++ [i]) }
  | .stopWorker [] wait => some { s with pc := .join wait }
  | .workerStop j todo wait =>
    some ⟨s.service.modifyWorker j Worker.workerStop, .stopWorker todo wait⟩
  | .join [] => some { s with pc := .returned }
  | _ => none

def step (s : ServiceRun) : RunEv → Option ServiceRun
  | .service e =>
    if s.pc = .loop ∨ e.isDeath then (s.service.step e).map fun b => { s with service := b }
    else none
  | .leave =>
    if s.pc = .loop then some { s with pc := .stopWorker s.service.workers.items [] } else none
  | .tick => s.tick
  | .join i timedOut => match s.pc with
    | .join (j :: wait) =>
      if j = i ∧ s.service.isAlive i = timedOut then
        if s.service.threads[i]?.any (·.life = .constructed) then some { s with pc := .joinRaised }
        else some { s with pc := .join wait }
      else none
    | _ => none
  | .interrupt => if s.pc.shuttingDown then some { s with pc := .interrupted } else none

def Start (s : ServiceRun) : Prop := s.service.Start ∧ s.pc = .loop

variable {s s' s₀ : ServiceRun} {e : RunEv} {es : List RunEv} {d : DbName} {i : ℕ}

/-! ## What a step does -/

inductive Move (s : ServiceRun) : RunEv → ServiceRun → Prop
  | beat {e b} (hpc : s.pc = .loop) (hs : s.service.step e = some b) :
    Move s (.service e) { s with service := b }
  | die {i : ℕ} (ha : s.service.isAlive i = true) :
    Move s (.service (.die i)) { s with service := s.service.modifyWorker i Worker.died }
  | leave (hpc : s.pc = .loop) :
    Move s .leave { s with pc := .stopWorker s.service.workers.items [] }
  | found {d i todo wait j} (hpc : s.pc = .stopWorker ((d, i) :: todo) wait)
      (hj : s.service.toStop d = some j) :
    Move s .tick { s with pc := .workerStop j todo (wait ++ [i]) }
  | quiet {d i todo wait} (hpc : s.pc = .stopWorker ((d, i) :: todo) wait)
      (hj : s.service.toStop d = none) :
    Move s .tick { s with pc := .stopWorker todo (wait ++ [i]) }
  | allTold {wait} (hpc : s.pc = .stopWorker [] wait) : Move s .tick { s with pc := .join wait }
  | workerStop {j todo wait} (hpc : s.pc = .workerStop j todo wait) :
    Move s .tick ⟨s.service.modifyWorker j Worker.workerStop, .stopWorker todo wait⟩
  | returned (hpc : s.pc = .join []) : Move s .tick { s with pc := .returned }
  | joined {i wait b} (hpc : s.pc = .join (i :: wait)) (ha : s.service.isAlive i = b) :
    Move s (.join i b) { s with pc := .join wait }
  | joinRaised {i wait b} (hpc : s.pc = .join (i :: wait)) :
    Move s (.join i b) { s with pc := .joinRaised }
  | interrupt (hpc : s.pc.shuttingDown = true) : Move s .interrupt { s with pc := .interrupted }

theorem step_move (h : s.step e = some s') : Move s e s' := by
  cases e with
  | service e =>
    simp only [step] at h
    split_ifs at h with hc
    obtain ⟨b, hb, rfl⟩ := Option.map_eq_some_iff.1 h
    by_cases hpc : s.pc = .loop
    · exact .beat hpc hb
    · cases e with
      | die i =>
        simp only [BackgroundService.step] at hb
        split_ifs at hb with ha
        obtain rfl := Option.some.inj hb
        exact .die ha
      | _ => exact (hc.resolve_left hpc |> Bool.noConfusion)
  | leave =>
    simp only [step] at h
    split_ifs at h with hpc
    obtain rfl := Option.some.inj h
    exact .leave hpc
  | tick =>
    simp only [step, tick] at h
    split at h
    · next d i todo wait hpc =>
      split at h
      · next j hj => obtain rfl := Option.some.inj h; exact .found hpc hj
      · next hj => obtain rfl := Option.some.inj h; exact .quiet hpc hj
    · next hpc => obtain rfl := Option.some.inj h; exact .allTold hpc
    · next hpc => obtain rfl := Option.some.inj h; exact .workerStop hpc
    · next hpc => obtain rfl := Option.some.inj h; exact .returned hpc
    · cases h
  | join i b =>
    simp only [step] at h
    split at h
    · next j wait hpc =>
      split_ifs at h with hc
      · obtain rfl := Option.some.inj h
        obtain ⟨rfl, -⟩ := hc
        exact .joinRaised hpc
      · obtain rfl := Option.some.inj h
        obtain ⟨rfl, ha⟩ := hc
        exact .joined hpc ha
    · cases h
  | interrupt =>
    simp only [step] at h
    split_ifs at h with hpc
    obtain rfl := Option.some.inj h
    exact .interrupt hpc

/-! ## Stop signals -/

/-- Worker `i`, live for `d`, has been told to stop, or will be. -/
def Told (s : ServiceRun) (d : DbName) (i : ℕ) : Prop :=
  match s.pc with
  | .loop => True
  | .interrupted => True
  | .stopWorker todo _ => s.service.isStopped i = true ∨ (d, i) ∈ todo
  | .workerStop j todo _ => s.service.isStopped i = true ∨ i = j ∨ (d, i) ∈ todo
  | _ => s.service.isStopped i = true

/-- `run` waits for worker `i`, live for `d`, or the join has timed out. -/
def Waited (es : List RunEv) (s : ServiceRun) (d : DbName) (i : ℕ) : Prop :=
  match s.pc with
  | .stopWorker todo wait => (d, i) ∈ todo ∨ i ∈ wait
  | .workerStop _ todo wait => (d, i) ∈ todo ∨ i ∈ wait
  | .join wait => i ∈ wait ∨ .join i true ∈ es
  | .returned => .join i true ∈ es
  | _ => True

structure Ok (es : List RunEv) (s : ServiceRun) : Prop where
  service : s.pc = .loop → s.service.Ok
  registered : s.service.Registered
  told : ∀ d i, s.service.Live d i → s.Told d i
  waited : ∀ d i, s.service.Live d i → s.Waited es d i

theorem Ok.die (h : Ok es s) {i : ℕ} :
    Ok (es ++ [.service (.die i)])
      { s with service := s.service.modifyWorker i Worker.died } := by
  have hlive : ∀ d j, (s.service.modifyWorker i Worker.died).Live d j → s.service.Live d j :=
    fun d j hj => (BackgroundService.live_died.1 hj).1
  refine ⟨fun hpc => ?_, h.registered.mono hlive rfl, fun d j hj => ?_, fun d j hj => ?_⟩
  · have hok := h.service hpc
    exact ⟨hok.registered.mono hlive rfl, hok.keyed.modify (f := Worker.died) fun _ => rfl,
      hok.pc.die⟩
  · have := h.told d j (hlive d j hj)
    unfold Told at this ⊢
    simpa only [BackgroundService.isStopped_modify (f := Worker.died) fun _ => rfl] using this
  · have := h.waited d j (hlive d j hj)
    unfold Waited at this ⊢
    cases hpc : s.pc <;> simp_all

theorem Ok.move (h : Ok es s) (hm : Move s e s') : Ok (es ++ [e]) s' := by
  cases hm with
  | beat hpc hs =>
    have hok := (h.service hpc).next hs
    exact ⟨fun _ => hok, hok.registered, fun d i _ => by simp [Told, hpc],
      fun d i _ => by simp [Waited, hpc]⟩
  | die ha => exact h.die
  | leave hpc =>
    have hitems : ∀ d i, s.service.Live d i → (d, i) ∈ s.service.workers.items :=
      fun d i hi => Dict.mem_items_iff.2 (h.registered d i hi)
    exact ⟨(fun hl => by cases hl), h.registered, fun d i hi => .inr (hitems d i hi),
      fun d i hi => .inl (hitems d i hi)⟩
  | @found d i todo wait j hpc hj =>
    refine ⟨(fun hl => by cases hl), h.registered, fun d' k hk => ?_, fun d' k hk => ?_⟩
    · have ht := h.told d' k hk
      simp only [Told, hpc, List.mem_cons, Prod.mk.injEq] at ht ⊢
      rcases ht with ht | ⟨rfl, rfl⟩ | ht
      · exact .inl ht
      · rw [h.registered.toStop hk] at hj
        split_ifs at hj
        exact .inr (.inl (Option.some.inj hj))
      · exact .inr (.inr ht)
    · have hw := h.waited d' k hk
      simp only [Waited, hpc, List.mem_cons, Prod.mk.injEq, List.mem_append, List.not_mem_nil,
        or_false] at hw ⊢
      tauto
  | @quiet d i todo wait hpc hj =>
    refine ⟨(fun hl => by cases hl), h.registered, fun d' k hk => ?_, fun d' k hk => ?_⟩
    · have ht := h.told d' k hk
      simp only [Told, hpc, List.mem_cons, Prod.mk.injEq] at ht ⊢
      rcases ht with ht | ⟨rfl, rfl⟩ | ht
      · exact .inl ht
      · rw [h.registered.toStop hk] at hj
        split_ifs at hj with hst
        exact .inl hst
      · exact .inr ht
    · have hw := h.waited d' k hk
      simp only [Waited, hpc, List.mem_cons, Prod.mk.injEq, List.mem_append, List.not_mem_nil,
        or_false] at hw ⊢
      tauto
  | @allTold wait hpc =>
    refine ⟨(fun hl => by cases hl), h.registered, fun d i hi => ?_, fun d i hi => ?_⟩
    · simpa [Told, hpc] using h.told d i hi
    · have hw := h.waited d i hi
      simp only [Waited, hpc, List.not_mem_nil, false_or] at hw ⊢
      exact .inl hw
  | @workerStop j todo wait hpc =>
    have hlive : ∀ d i, (s.service.modifyWorker j Worker.workerStop).Live d i →
        s.service.Live d i := fun d i => BackgroundService.live_workerStop.1
    refine ⟨(fun hl => by cases hl), h.registered.mono hlive rfl, fun d i hi => ?_,
      fun d i hi => ?_⟩
    · have ht := h.told d i (hlive d i hi)
      simp only [Told, hpc] at ht ⊢
      rcases ht with ht | rfl | ht
      · exact .inl (BackgroundService.isStopped_workerStop.2 (.inl ht))
      · obtain ⟨w, hw, -⟩ := hlive d i hi
        exact .inl (BackgroundService.isStopped_workerStop.2
          (.inr ⟨rfl, (List.getElem?_eq_some_iff.1 hw).1⟩))
      · exact .inr ht
    · simpa [Waited, hpc] using h.waited d i (hlive d i hi)
  | returned hpc =>
    refine ⟨(fun hl => by cases hl), h.registered, fun d i hi => ?_, fun d i hi => ?_⟩
    · simpa [Told, hpc] using h.told d i hi
    · have hw := h.waited d i hi
      simp only [Waited, hpc, List.not_mem_nil, false_or] at hw ⊢
      exact List.mem_append_left _ hw
  | @joined j wait b hpc ha =>
    refine ⟨(fun hl => by cases hl), h.registered, fun d i hi => ?_, fun d i hi => ?_⟩
    · simpa [Told, hpc] using h.told d i hi
    · have hw := h.waited d i hi
      simp only [Waited, hpc, List.mem_cons] at hw ⊢
      rcases hw with (rfl | hw) | hw
      · -- the join of a live worker has timed out
        obtain rfl : b = true := ha.symm.trans (BackgroundService.isAlive_iff.2 ⟨d, hi⟩)
        exact .inr (List.mem_append_right _ List.mem_cons_self)
      · exact .inl hw
      · exact .inr (List.mem_append_left _ hw)
  | joinRaised hpc =>
    exact ⟨(fun hl => by cases hl), h.registered,
      fun d i hi => by simpa [Told, hpc] using h.told d i hi, fun d i _ => trivial⟩
  | interrupt =>
    exact ⟨(fun hl => by cases hl), h.registered, fun _ _ _ => trivial, fun _ _ _ => trivial⟩

theorem Start.ok (h0 : s₀.Start) : Ok [] s₀ where
  service _ := h0.1.ok
  registered := h0.1.ok.registered
  told d i _ := by simp [Told, h0.2]
  waited d i _ := by simp [Waited, h0.2]

theorem Move.live_of_left (hm : Move s e s') (hpc : s.pc ≠ .loop) :
    s'.pc ≠ .loop ∧ ∀ d i, s'.service.Live d i → s.service.Live d i := by
  cases hm with
  | beat h _ => exact absurd h hpc
  | leave h => exact absurd h hpc
  | die ha => exact ⟨hpc, fun d i hi => (BackgroundService.live_died.1 hi).1⟩
  | workerStop h => exact ⟨(fun hl => by cases hl), fun d i => BackgroundService.live_workerStop.1⟩
  | _ => exact ⟨(fun hl => by cases hl), fun d i hi => hi⟩

theorem exists_step (hpc : s.pc.shuttingDown = true) :
    ∃ e, e ≠ .interrupt ∧ (∀ e', e ≠ .service e') ∧ (s.step e).isSome = true := by
  cases hs : s.pc with
  | stopWorker todo wait =>
    refine ⟨.tick, by simp, by simp, ?_⟩
    rcases todo with _ | ⟨⟨d, i⟩, todo⟩
    · simp [step, tick, hs]
    · simp only [step, tick, hs]
      cases s.service.toStop d <;> rfl
  | workerStop j todo wait => exact ⟨.tick, by simp, by simp, by simp [step, tick, hs]⟩
  | join wait =>
    rcases wait with _ | ⟨i, wait⟩
    · exact ⟨.tick, by simp, by simp, by simp [step, tick, hs]⟩
    · refine ⟨.join i (s.service.isAlive i), by simp, by simp, ?_⟩
      simp only [step, hs, and_self, if_true]
      split_ifs <;> rfl
  | _ => rw [hs] at hpc; cases hpc

/-- **No worker outlives its service unnoticed.** Wherever the loop of a service is left, and
however threads die meanwhile: once the signals have been sent, every live worker thread of the
service has its stop event set; when `run` has returned, each one that is still alive is one whose
join has timed out; and from the moment the loop was left on, no worker comes to life. -/
theorem run_stops_workers (h0 : s₀.Start) (hp : Path step anyStep s₀ es s) :
    (s.pc.signalled = true → ∀ d i, s.service.Live d i → s.service.isStopped i = true) ∧
    (s.pc = .returned → ∀ d i, s.service.Live d i → .join i true ∈ es) ∧
    (s.pc ≠ .loop → ∀ es' s', Path step anyStep s es' s' → ∀ d i, s'.service.Live d i →
      s.service.Live d i) ∧
    (s.pc.shuttingDown = true →
      ∃ e, e ≠ .interrupt ∧ (∀ e', e ≠ .service e') ∧ (s.step e).isSome = true) := by
  have hok : Ok es s := hp.inv_history (I := Ok)
    (fun es s e s' _ h _ hs => h.move (step_move hs)) h0.ok
  refine ⟨fun hsig d i hi => ?_, fun hret d i hi => ?_, fun hpc es' s' hp' => ?_, exists_step⟩
  · have := hok.told d i hi
    unfold Told at this
    cases hpc : s.pc <;> simp_all [RunPc.signalled]
  · simpa [Waited, hret] using hok.waited d i hi
  · have := hp'.inv (I := fun t => t.pc ≠ .loop ∧ ∀ d i, t.service.Live d i → s.service.Live d i)
      (fun t e t' ht _ hs => by
        obtain ⟨hne, hlive⟩ := (step_move hs).live_of_left ht.1
        exact ⟨hne, fun d i hi => ht.2 d i (hlive d i hi)⟩) ⟨hpc, fun d i hi => hi⟩
    exact this.2

/-- Two workers come up, and the loop is left. One of them ends in time, the other does not. -/
def slowWorker : List RunEv := [
  .service (.stopWorkers []), .service .tick, .service .tick, .service .tick,
  .service (.spawnWorkers [⟨"db1", true⟩, ⟨"db2", true⟩]),
  .service (.spawnWorker "db1" true), .service (.start "db1" .started),
  .service (.spawnWorker "db2" true), .service (.start "db2" .started),
  .leave, .tick, .tick, .tick, .tick, .tick,
  .service (.die 0), .join 0 false, .join 1 true, .tick]

theorem slowWorker_told : ∃ s, Path step anyStep {} slowWorker s ∧ s.pc = .returned ∧
    s.service.isStopped 1 = true ∧ .join 1 true ∈ slowWorker := by
  have hp : Path step anyStep {} slowWorker _ := path_reached (by decide +kernel)
  have hpc : (reached step anyStep {} slowWorker).pc = .returned := by decide +kernel
  have hlive : (reached step anyStep {} slowWorker).service.Live "db2" 1 :=
    ⟨_, rfl, by decide +kernel, by decide +kernel⟩
  obtain ⟨hstop, hret, -⟩ := run_stops_workers ⟨⟨rfl, rfl, rfl⟩, rfl⟩ hp
  exact ⟨_, hp, hpc, hstop (by rw [hpc]; rfl) _ _ hlive, hret hpc _ _ hlive⟩

end ServiceRun

end GenericBackgroundService
