import GenericBackground.Lib.Path
import GenericBackground.TaskQueue.Waiting

/-!
# Multi-phase pipelines

`MultiPhaseTaskType`: `execute` spawns the wave of the first phase that plans children, and
`on_all_children_done` that of the next one, until no phase is left. The driver keeps its place in
two fields of the root, `phase` and `phase_data['child_ids']`.

A run is one attempt of the root. Its steps are the transaction of `execute()`, checks of the
waiting root, calls of `store_phase_data`, and whatever else happens to the table (`Elsewhere`). A
check is one step: it holds the lock of the root, and reads children that no longer change. The
processes that check the root have its type registered. A call of `plan_phase` may return anything,
or raise, each time it is made; those that have been committed are recorded (`PlanCall`).
-/

namespace GenericTaskQueue

open Query Lts

/-! ## The driver -/

structure ChildResult where
  task : TaskId
  result : Option Json
  error : Option String
  state : TaskState
  deriving DecidableEq, Repr

def childResult (c : Task) : ChildResult where
  task := c.id
  result := if c.state = .done then c.taskResult else none
  error := if c.state = .failed then c.taskError else none
  state := c.state

def resultsOf (T : Table) (ids : List TaskId) : List ChildResult :=
  ids.filterMap fun k => (T.get k).map childResult

/-- `_child_results` of the records with these ids. -/
def childResults (T : Table) (ids : List TaskId) : Except Exc (List ChildResult) :=
  if ids.all fun k => (T.get k).isSome then .ok (resultsOf T ids)
  else .error (.other "Record does not exist or has been deleted.")

/-- The ids of the current wave: `phase_data['child_ids']`. -/
def waveIds (p : Task) : List TaskId :=
  match p.phaseData.lookup "child_ids" with
  | some (.ints ids) => ids.map Int.toNat
  | _ => []

/-- What `plan_phase` returns: nothing, a type code with a list of params, or an iterable of
specs. -/
inductive Plan where
  | nothing
  | homogeneous (typeCode : TypeCode) (paramsList : Option (List (Option Json)))
  | specs (specs : List TaskSpec)
  deriving DecidableEq, Repr

def normalizePlan : Plan → List TaskSpec
  | .nothing => []
  | .homogeneous typeCode paramsList =>
    (paramsList.getD []).map fun params => { typeCode := typeCode, params := params }
  | .specs specs => specs

/-- What one call of `plan_phase` does: its calls of `store_phase_data`, and its return value or the
exception that it raises. -/
structure PlanRun where
  stores : List (List (String × Json)) := []
  result : Except Exc Plan := .ok .nothing

/-- `plan_phase` in one transaction: the index of the phase stands for whatever else it reads. -/
abbrev PlanPhase := ℕ → String → Option (List ChildResult) → PlanRun

/-- A call of `plan_phase`: the index of the phase, `prev_results`, what it stored, the children
that it planned, and the ids under which they were spawned. -/
structure PlanCall where
  index : ℕ
  prev : Option (List ChildResult)
  stores : List (List (String × Json))
  specs : List TaskSpec
  wave : List TaskId
  deriving DecidableEq, Repr

/-- `spawn_children` in `_start_wave`, and what is written then. -/
def spawnWave (E : Env) (id : TaskId) (i : ℕ) (specs : List TaskSpec) (T : Table) :
    Except Exc (Table × List TaskId) :=
  match T.get id with
  | none => .error (.other "Record does not exist or has been deleted.")
  | some p => match createChildren E p specs T with
    | .error (.validationError e) => .error (.other e)
    | .ok T₁ =>
      let ids := (List.range specs.length).map (T.nextId + ·)
      let T₂ := T₁.update id (enterPhase i (some ids))
      if p.state = .waiting then .ok (T₂, ids)
      else match T₂.modify id actionWaitChildren with
        | .error (.validationError e) => .error (.other e)
        | .ok T₃ => .ok (T₃, ids)

/-- `_start_wave` from phase `i` on, of which `names` are left: whether a wave was spawned, and the
calls of `plan_phase`. -/
def startWave (E : Env) (plan : PlanPhase) (prev : Option (List ChildResult)) (id : TaskId) :
    List String → ℕ → Table → Except Exc (Table × Bool × List PlanCall)
  | [], i, T => .ok (T.update id (enterPhase i none), false, [])
  | name :: names, i, T =>
    let run := plan i name prev
    let T₁ := T.update id fun t => run.stores.foldl (fun t vals => storePhaseData vals t) t
    match run.result with
    | .error exc => .error exc
    | .ok result =>
      if normalizePlan result = [] then
        (startWave E plan prev id names (i + 1) T₁).map fun r =>
          (r.1, r.2.1, ⟨i, prev, run.stores, [], []⟩ :: r.2.2)
      else (spawnWave E id i (normalizePlan result) T₁).map fun r =>
        (r.1, true, [⟨i, prev, run.stores, normalizePlan result, r.2⟩])

/-- The transaction of `execute()`: a root that does not wait afterwards is done. -/
def executeRoot (E : Env) (phases : List String) (plan : PlanPhase) (id : TaskId) (T : Table) :
    Except Exc (Table × List PlanCall) :=
  match startWave E plan none id phases 0 T with
  | .error exc => .error exc
  | .ok (T', spawned, calls) =>
    if spawned then .ok (T', calls)
    else match T'.modify id (actionDone E.now none) with
      | .error (.validationError e) => .error (.other e)
      | .ok T'' => .ok (T'', calls)

/-- `on_all_children_done`; `aggregate` is `aggregate_result`. -/
def onAllChildrenDone (E : Env) (phases : List String) (plan : PlanPhase)
    (aggregate : List ChildResult → Except Exc (Option Json)) : Hook (List PlanCall) := fun p T =>
  match childResults T (waveIds p) with
  | .error exc => .error exc
  | .ok prev =>
    match startWave E plan (some prev) p.id (phases.drop (p.phase + 1)) (p.phase + 1) T with
    | .error exc => .error exc
    | .ok (T', spawned, calls) =>
      if spawned then .ok (T', none, calls)
      else match aggregate prev with
        | .error exc => .error exc
        | .ok v => .ok (T', v, calls)

/-! ## Runs of one attempt -/

def mergeData (vals data : List (String × Json)) : List (String × Json) :=
  vals ++ data.filter fun kv => kv.1 ∉ vals.map Prod.fst

def mergeAll (stores : List (List (String × Json))) (data : List (String × Json)) :
    List (String × Json) := stores.foldl (fun data vals => mergeData vals data) data

/-- The table, the calls of `plan_phase` that are committed, and what `store_phase_data` has stored
since the attempt began, over what there was. -/
structure Pipeline where
  table : Table
  plans : List PlanCall
  stored : List (String × Json)

inductive PipelineEv where
  | execute (E : Env) (plan : PlanPhase)
  | check (E : Env) (plan : PlanPhase) (aggregate : List ChildResult → Except Exc (Option Json))
      (onFailure : HookRun)
  | store (vals : List (String × Json))
  | elsewhere (T : Table)

def Finished (c : Task) : Prop := c.state = .done ∨ c.state = .cancelled

instance (c : Task) : Decidable (Finished c) := by unfold Finished; infer_instance

theorem Finished.not_active {c : Task} (h : Finished c) : c.state ∉ activeStates := by
  rcases h with hs | hs <;> rw [hs] <;> decide

theorem Finished.not_failed {c : Task} (h : Finished c) : c.state ≠ .failed := by
  rcases h with hs | hs <;> rw [hs] <;> decide

theorem Finished.of_not {c : Task} (h : c.state ∉ activeStates) (hf : c.state ≠ .failed) :
    Finished c := by
  unfold Finished
  cases hs : c.state <;> simp [hs, activeStates] at h hf ⊢

/-- The states of the root in an attempt, once its thread has started. -/
def attemptStates : List TaskState := [.running, .waiting, .done]

/-- What else happens to the table: nothing else writes the phase of the root, or makes it running,
waiting or done, inserts or deletes a child of it, or changes a child that is done or cancelled. -/
def Elsewhere (id : TaskId) (T T' : Table) : Prop :=
  (∃ p ∈ T.rows, ∃ p' ∈ T'.rows, p.id = id ∧ p'.id = id ∧
    (p'.state = p.state ∨ p'.state ∉ attemptStates) ∧ p'.phase = p.phase ∧
    p'.phaseData = p.phaseData) ∧
  (∀ c ∈ T.rows, c.parentId = some id → ∃ c' ∈ T'.rows, c'.id = c.id ∧ c'.parentId = some id ∧
    (Finished c → c'.state = c.state ∧ c'.taskResult = c.taskResult)) ∧
  ∀ c' ∈ T'.rows, c'.parentId = some id → ∃ c ∈ T.rows, c.id = c'.id ∧ c.parentId = some id

instance (id : TaskId) (T T' : Table) : Decidable (Elsewhere id T T') := by
  unfold Elsewhere; infer_instance

namespace Pipeline

def commit (s : Pipeline) (T : Table) (calls : List PlanCall) : Pipeline where
  table := T
  plans := s.plans ++ calls
  stored := mergeAll (calls.flatMap PlanCall.stores) s.stored

def step (phases : List String) (id : TaskId) (s : Pipeline) : PipelineEv → Option Pipeline
  | .execute E plan =>
    if (s.table.get id).map Task.state = some .running then
      match executeRoot E phases plan id s.table with
      | .ok (T, calls) => some (s.commit T calls)
      | .error _ => some s
    else none
  | .check E plan aggregate onFailure =>
    match checkWaitingParentWith E (onAllChildrenDone E phases plan aggregate)
        ⟨fun _ => {}, fun _ => onFailure⟩ id s.table with
    | .ok (T, _, some calls) => some (s.commit T calls)
    | .ok (T, _, none) => some { s with table := T }
    | .error _ => some s
  | .store vals => some { s with
      table := s.table.update id (storePhaseData vals)
      stored := mergeData vals s.stored }
  | .elsewhere T => some { s with table := T }

def admits (id : TaskId) (s : Pipeline) : PipelineEv → Prop
  | .store vals => "child_ids" ∉ vals.map Prod.fst
  | .elsewhere T => Elsewhere id s.table T
  | _ => True

instance (id : TaskId) (s : Pipeline) (ev : PipelineEv) : Decidable (s.admits id ev) := by
  cases ev <;> unfold admits <;> infer_instance

/-- An attempt starts: the root runs, and children of earlier attempts are done or cancelled. -/
structure Start (id : TaskId) (s : Pipeline) : Prop where
  root : ∃ p, s.table.get id = some p ∧ p.state = .running ∧ s.stored = p.phaseData
  finished : ∀ c ∈ s.table.children id, Finished c
  plans : s.plans = []

end Pipeline

/-! ## What is stored -/

theorem lookup_mergeData {vals data : List (String × Json)} {key : String} :
    (mergeData vals data).lookup key = (vals.lookup key).or (data.lookup key) := by
  unfold mergeData
  rw [List.lookup_append]
  cases hv : vals.lookup key with
  | some v => rfl
  | none =>
    -- a key that is not passed is kept
    have hkey : key ∉ vals.map Prod.fst := by
      intro hm
      obtain ⟨kv, hkv, rfl⟩ := List.mem_map.1 hm
      have := List.lookup_eq_none_iff.1 hv kv hkv
      simp at this
    simp only [Option.none_or]
    induction data with
    | nil => rfl
    | cons kv data ih =>
      by_cases hk : kv.1 ∉ vals.map Prod.fst
      · rw [List.filter_cons_of_pos (by simpa using hk), List.lookup_cons, List.lookup_cons, ih]
      · have hne : (key == kv.1) = false := beq_false_of_ne fun h => hkey (h ▸ not_not.1 hk)
        rw [List.filter_cons_of_neg (by simpa using hk), ih, List.lookup_cons, hne]

/-- The blobs agree, but for the key of the framework. -/
def SameData (data data' : List (String × Json)) : Prop :=
  ∀ key ≠ "child_ids", data.lookup key = data'.lookup key

theorem SameData.refl (data : List (String × Json)) : SameData data data := fun _ _ => rfl

theorem SameData.trans {d₁ d₂ d₃ : List (String × Json)} (h : SameData d₁ d₂)
    (h' : SameData d₂ d₃) : SameData d₁ d₃ := fun key hk => (h key hk).trans (h' key hk)

theorem SameData.merge {data data' : List (String × Json)} (h : SameData data data')
    (vals : List (String × Json)) : SameData (mergeData vals data) (mergeData vals data') := by
  intro key hk
  rw [lookup_mergeData, lookup_mergeData, h key hk]

theorem SameData.mergeAll {data data' : List (String × Json)} (h : SameData data data')
    (stores : List (List (String × Json))) :
    SameData (mergeAll stores data) (mergeAll stores data') := by
  induction stores generalizing data data' with
  | nil => exact h
  | cons vals stores ih => exact ih (h.merge vals)

theorem SameData.childIds (v : Json) (data : List (String × Json)) :
    SameData (mergeData [("child_ids", v)] data) data := by
  intro key hk
  have hne : (key == "child_ids") = false := beq_false_of_ne hk
  rw [lookup_mergeData, List.lookup_cons, hne]
  rfl

theorem mergeAll_append (l r : List (List (String × Json))) (data : List (String × Json)) :
    mergeAll (l ++ r) data = mergeAll r (mergeAll l data) := List.foldl_append

theorem foldl_storePhaseData (stores : List (List (String × Json))) (t : Task) :
    stores.foldl (fun t vals => storePhaseData vals t) t =
      { t with phaseData := mergeAll stores t.phaseData } := by
  induction stores generalizing t with
  | nil => rfl
  | cons vals stores ih => exact ih _

theorem waveIds_written {t : Task} {ids : List TaskId}
    (h : t.phaseData.lookup "child_ids" = some (.ints (ids.map Int.ofNat))) : waveIds t = ids := by
  unfold waveIds
  rw [h]
  show (ids.map Int.ofNat).map Int.toNat = ids
  rw [List.map_map]
  exact (List.map_congr_left fun k _ => Int.toNat_natCast k).trans (List.map_id ids)

theorem waveIds_store {vals : List (String × Json)} {t : Task}
    (h : "child_ids" ∉ vals.map Prod.fst) : waveIds (storePhaseData vals t) = waveIds t := by
  show waveIds { t with phaseData := mergeData vals t.phaseData } = waveIds t
  unfold waveIds
  rw [lookup_mergeData, List.lookup_eq_none_iff.2 fun kv hkv => ?_]
  · rfl
  · simp only [bne_iff_ne]
    exact fun hk => h (hk ▸ List.mem_map_of_mem hkv)

/-! ## What the driver does -/

/-- The rows of other tasks are kept, and further ones are the children of a new wave. -/
structure Advance (id : TaskId) (T T' : Table) (wave : List TaskId) : Prop where
  old : ∀ k ≠ id, ∀ c, T.get k = some c → T'.get k = some c
  new : ∀ k ≠ id, ∀ c, T'.get k = some c → T.get k = some c ∨ k ∈ wave
  wave : ∀ k ∈ wave, k ≠ id ∧ ∃ c, T'.get k = some c ∧ c.parentId = some id ∧ c.state = .pending

theorem Advance.update {id : TaskId} {T T' : Table} {wave : List TaskId} (f : Task → Task)
    (h : Advance id (T.update id f) T' wave) : Advance id T T' wave where
  old k hk c hc := h.old k hk c ((Table.get_update_of_ne hk).trans hc)
  new k hk c hc := (h.new k hk c hc).imp_left fun hc => (Table.get_update_of_ne hk).symm.trans hc
  wave := h.wave

theorem Advance.updated {id : TaskId} {T T' : Table} {wave : List TaskId} (f : Task → Task)
    (h : Advance id T T' wave) : Advance id T (T'.update id f) wave where
  old k hk c hc := (Table.get_update_of_ne hk).trans (h.old k hk c hc)
  new k hk c hc := h.new k hk c ((Table.get_update_of_ne hk).symm.trans hc)
  wave k hk := by
    obtain ⟨hne, c, hc, h⟩ := h.wave k hk
    exact ⟨hne, c, (Table.get_update_of_ne hne).trans hc, h⟩

theorem Advance.refl (id : TaskId) (T : Table) : Advance id T T [] :=
  ⟨fun _ _ _ hc => hc, fun _ _ _ hc => .inl hc, nofun⟩

theorem createChildren_advance {E : Env} {p : Task} {specs : List TaskSpec} {T T' : Table}
    (hp : T.get p.id = some p) (h : createChildren E p specs T = .ok T') :
    Advance p.id T T' ((List.range specs.length).map (T.nextId + ·)) ∧ T'.get p.id = some p := by
  unfold createChildren at h
  split at h
  · cases h
  · obtain rfl := Except.ok.inj h
    have hlt : p.id < T.nextId := Table.lt_nextId (Table.get_eq_some_iff.1 hp).1
    refine ⟨⟨fun k _ c hc => Table.get_insert hc, fun k _ c hc => ?_, fun k hk => ?_⟩,
      Table.get_insert hp⟩
    · obtain ⟨hm, rfl⟩ := Table.get_eq_some_iff.1 hc
      rcases Table.mem_insert.1 hm with hm | ⟨q, hq, rfl⟩
      · exact .inl (Table.mem_iff_get.1 hm)
      · have hlen : q.2 < specs.length := by
          simpa using List.snd_lt_of_mem_zipIdx hq
        exact .inr (List.mem_map.2 ⟨q.2, List.mem_range.2 hlen, rfl⟩)
    · obtain ⟨j, hj, rfl⟩ := List.mem_map.1 hk
      have hj : j < specs.length := List.mem_range.1 hj
      refine ⟨Nat.ne_of_gt (Nat.lt_of_lt_of_le hlt (Nat.le_add_right _ _)),
        { (childVals E p specs.length j specs[j]).create with id := T.nextId + j }, ?_,
        rfl, rfl⟩
      refine Table.get_eq_some_iff.2 ⟨Table.mem_insert.2 (.inr
        ⟨((childVals E p specs.length j specs[j]).create, j), ?_, rfl⟩), rfl⟩
      rw [List.mem_zipIdx_iff_getElem?]
      simp [hj]

theorem spawnWave_spec {E : Env} {id : TaskId} {i : ℕ} {specs : List TaskSpec} {T T' : Table}
    {p : Task} {ids : List TaskId} (hp : T.get id = some p)
    (h : spawnWave E id i specs T = .ok (T', ids)) :
    ids.length = specs.length ∧ Advance id T T' ids ∧ ∃ p', T'.get id = some p' ∧
      p'.state = .waiting ∧ p'.phase = i ∧ waveIds p' = ids ∧ p'.parentId = p.parentId ∧
      SameData p'.phaseData p.phaseData := by
  obtain ⟨-, rfl⟩ := Table.get_eq_some_iff.1 hp
  simp only [spawnWave, hp] at h
  cases hc : createChildren E p specs T with
  | error e =>
    rw [hc] at h
    cases h
  | ok T₁ =>
    obtain ⟨hadv, hp₁⟩ := createChildren_advance hp hc
    simp only [hc] at h
    -- the row of the root after the write of the phase
    have hp₂ := Table.get_update_self (f := fun t => { storePhaseData [("child_ids", .ints
      (((List.range specs.length).map (T.nextId + ·)).map Int.ofNat))] t with phase := i }) hp₁
    have hids : (mergeData [("child_ids", .ints (((List.range specs.length).map
        (T.nextId + ·)).map Int.ofNat))] p.phaseData).lookup "child_ids" =
          some (.ints (((List.range specs.length).map (T.nextId + ·)).map Int.ofNat)) := by
      rw [lookup_mergeData]
      simp
    split_ifs at h with hw
    · obtain ⟨rfl, rfl⟩ := Prod.mk.inj (Except.ok.inj h)
      exact ⟨by simp, hadv.updated _, _, hp₂, hw, rfl, waveIds_written hids, rfl, .childIds _ _⟩
    · split at h
      · cases h
      · next T₃ hm =>
        obtain ⟨rfl, rfl⟩ := Prod.mk.inj (Except.ok.inj h)
        obtain ⟨p₃, hp₃, rfl⟩ := Table.modify_ok hp₂ hm
        obtain ⟨-, rfl⟩ := checked_ok hp₃
        exact ⟨by simp, (hadv.updated _).updated _, _, Table.get_update_self hp₂, rfl, rfl,
          waveIds_written hids, rfl, .childIds _ _⟩

/-- What `_start_wave` leaves behind: `names` are the phases that were left from `i` on. -/
structure Started (id : TaskId) (names : List String) (i : ℕ) (prev : Option (List ChildResult))
    (T T' : Table) (p : Task) (spawned : Bool) (calls : List PlanCall) : Prop where
  indices : calls.map PlanCall.index = List.range' i calls.length
  prevs : ∀ c ∈ calls, c.prev = prev
  sizes : ∀ c ∈ calls, c.wave.length = c.specs.length
  bound : calls.length ≤ names.length
  root : ∃ p', T'.get id = some p' ∧ p'.parentId = p.parentId ∧
    SameData p'.phaseData (mergeAll (calls.flatMap PlanCall.stores) p.phaseData) ∧
    (spawned = false → p'.state = p.state) ∧
    (spawned = true → ∃ l c, calls = l ++ [c] ∧ (∀ d ∈ l, d.wave = []) ∧ c.wave ≠ [] ∧
      Advance id T T' c.wave ∧ p'.state = .waiting ∧ waveIds p' = c.wave ∧ p'.phase = c.index)
  exhausted : spawned = false → (∀ c ∈ calls, c.wave = []) ∧ calls.length = names.length ∧
    Advance id T T' []

/-- **Waves.** `_start_wave` plans the phases in order, up to the first that plans children. -/
theorem startWave_spec {E : Env} {plan : PlanPhase} {prev : Option (List ChildResult)} {id : TaskId}
    {names : List String} {i : ℕ} {T T' : Table} {p : Task} {spawned : Bool}
    {calls : List PlanCall} (hp : T.get id = some p)
    (h : startWave E plan prev id names i T = .ok (T', spawned, calls)) :
    Started id names i prev T T' p spawned calls := by
  induction names generalizing i T p calls with
  | nil =>
    obtain ⟨rfl, hrest⟩ := Prod.mk.inj (Except.ok.inj h)
    obtain ⟨rfl, rfl⟩ := Prod.mk.inj hrest
    exact ⟨rfl, nofun, nofun, Nat.le_refl _, ⟨_, Table.get_update_self hp, rfl, .refl _,
      fun _ => rfl, nofun⟩, fun _ => ⟨nofun, rfl, (Advance.refl id T).updated _⟩⟩
  | cons name names ih =>
    obtain ⟨-, rfl⟩ := Table.get_eq_some_iff.1 hp
    simp only [startWave, foldl_storePhaseData] at h
    have hp₁ := Table.get_update_self (f := fun t : Task =>
      { t with phaseData := mergeAll (plan i name prev).stores t.phaseData }) hp
    split at h
    · cases h
    · next result hres =>
      split_ifs at h with hnil
      · -- nothing planned: the next phase
        obtain ⟨⟨T₂, sp, rest⟩, hrec, heq⟩ := map_ok h
        obtain ⟨rfl, hrest⟩ := Prod.mk.inj heq
        obtain ⟨rfl, rfl⟩ := Prod.mk.inj hrest
        have hs := ih hp₁ hrec
        obtain ⟨p', hp', hpar, hdata, hsame, hwave⟩ := hs.root
        refine ⟨?_, ?_, ?_, Nat.succ_le_succ hs.bound, ⟨p', hp', hpar, ?_, hsame, fun hsp => ?_⟩,
          fun hsp => ?_⟩
        · rw [List.map_cons, hs.indices, List.length_cons, List.range'_succ]
        · exact List.forall_mem_cons.2 ⟨rfl, hs.prevs⟩
        · exact List.forall_mem_cons.2 ⟨rfl, hs.sizes⟩
        · rw [List.flatMap_cons, mergeAll_append]
          exact hdata
        · obtain ⟨l, c, rfl, hl, hc, hadv, h3⟩ := hwave hsp
          exact ⟨_ :: l, c, rfl, List.forall_mem_cons.2 ⟨rfl, hl⟩, hc, hadv.update _, h3⟩
        · obtain ⟨hall, hlen, hadv⟩ := hs.exhausted hsp
          exact ⟨List.forall_mem_cons.2 ⟨rfl, hall⟩, congrArg Nat.succ hlen, hadv.update _⟩
      · obtain ⟨⟨T₂, ids⟩, hsp, heq⟩ := map_ok h
        obtain ⟨rfl, hrest⟩ := Prod.mk.inj heq
        obtain ⟨rfl, rfl⟩ := Prod.mk.inj hrest
        obtain ⟨hlen, hadv, p', hp', hw, hph, hids, hpar, hdata⟩ := spawnWave_spec hp₁ hsp
        have hne : ids ≠ [] := by
          rintro rfl
          exact hnil (List.eq_nil_of_length_eq_zero hlen.symm)
        refine ⟨rfl, ?_, ?_, Nat.succ_le_succ (Nat.zero_le _), ⟨p', hp', hpar, ?_, nofun,
          fun _ => ⟨[], _, rfl, nofun, hne, hadv.update _, hw, hids, hph⟩⟩, nofun⟩
        · exact List.forall_mem_singleton.2 rfl
        · exact List.forall_mem_singleton.2 hlen
        · simpa using hdata

/-- What a transaction of the driver leaves behind that is kept: a wave, for which the root waits,
or a root that is done, with no phase left. -/
structure Driven (phases : List String) (id : TaskId) (i : ℕ) (prev : Option (List ChildResult))
    (T T' : Table) (p p' : Task) (calls : List PlanCall) : Prop where
  indices : calls.map PlanCall.index = List.range' i calls.length
  prevs : ∀ c ∈ calls, c.prev = prev
  sizes : ∀ c ∈ calls, c.wave.length = c.specs.length
  bound : i + calls.length ≤ phases.length
  parent : p'.parentId = p.parentId
  data : SameData p'.phaseData (mergeAll (calls.flatMap PlanCall.stores) p.phaseData)
  outcome : (∃ l c, calls = l ++ [c] ∧ (∀ d ∈ l, d.wave = []) ∧ c.wave ≠ [] ∧
      Advance id T T' c.wave ∧ p'.state = .waiting ∧ waveIds p' = c.wave ∧ p'.phase = c.index) ∨
    ((∀ c ∈ calls, c.wave = []) ∧ i + calls.length = phases.length ∧ Advance id T T' [] ∧
      p'.state = .done)

section Driver

variable {E : Env} {phases : List String} {plan : PlanPhase} {id : TaskId} {i : ℕ}
  {prev : Option (List ChildResult)} {aggregate : List ChildResult → Except Exc (Option Json)}
  {hooks : Hooks} {T T' T₁ : Table} {p : Task} {calls : List PlanCall}

theorem Started.driven (h : Started id (phases.drop i) i prev T T' p true calls)
    (hi : i ≤ phases.length) :
    ∃ p', T'.get id = some p' ∧ Driven phases id i prev T T' p p' calls := by
  obtain ⟨p', hp', hpar, hdata, -, hwave⟩ := h.root
  have hb := h.bound
  rw [List.length_drop] at hb
  exact ⟨p', hp', h.indices, h.prevs, h.sizes, by omega, hpar, hdata, .inl (hwave rfl)⟩

theorem Started.driven_done (h : Started id (phases.drop i) i prev T T' p false calls)
    (hi : i ≤ phases.length) (hs : p.state = .running ∨ p.state = .waiting) (now : ℕ)
    (v : Option Json) : ∃ T'' p', T'.modify id (actionDone now v) = .ok T'' ∧
      T''.get id = some p' ∧ Driven phases id i prev T T'' p p' calls := by
  obtain ⟨p', hp', hpar, hdata, hsame, -⟩ := h.root
  obtain ⟨hall, hlen, hadv⟩ := h.exhausted rfl
  rw [List.length_drop] at hlen
  have hf : actionDone now v p' = .ok { p' with
      state := .done, taskResult := v, dateCompleted := some now, progress := 100 } :=
    checked_of_mem (by rw [hsame rfl]; rcases hs with hs | hs <;> rw [hs] <;> decide)
  exact ⟨_, _, Table.modify_eq hp' hf, Table.get_update_self hp', h.indices, h.prevs, h.sizes,
    by omega, hpar, hdata, .inr ⟨hall, by omega, hadv.updated _, rfl⟩⟩

theorem executeRoot_driven (hp : T.get id = some p) (hr : p.state = .running)
    (h : executeRoot E phases plan id T = .ok (T', calls)) :
    ∃ p', T'.get id = some p' ∧ Driven phases id 0 none T T' p p' calls := by
  unfold executeRoot at h
  split at h
  · cases h
  · next T₁ spawned calls₁ hsw =>
    have hst := startWave_spec hp hsw
    cases spawned with
    | true =>
      obtain ⟨rfl, rfl⟩ := Prod.mk.inj (Except.ok.inj h)
      exact hst.driven (Nat.zero_le _)
    | false =>
      obtain ⟨T₂, p', hm, hp', hd⟩ := hst.driven_done (Nat.zero_le _) (.inl hr) E.now none
      simp only [hm] at h
      obtain ⟨rfl, rfl⟩ := Prod.mk.inj (Except.ok.inj h)
      exact ⟨p', hp', hd⟩

theorem onAllChildrenDone_started {v : Option Json} (hp : T.get p.id = some p)
    (h : onAllChildrenDone E phases plan aggregate p T = .ok (T₁, v, calls)) :
    ∃ spawned, Started p.id (phases.drop (p.phase + 1)) (p.phase + 1)
      (some (resultsOf T (waveIds p))) T T₁ p spawned calls := by
  unfold onAllChildrenDone at h
  split at h
  · cases h
  · next prev hprev =>
    obtain rfl : resultsOf T (waveIds p) = prev := by
      unfold childResults at hprev
      split_ifs at hprev
      exact Except.ok.inj hprev
    split at h
    · cases h
    · next T₂ spawned calls₂ hsw =>
      have hst := startWave_spec hp hsw
      split_ifs at h with hsp
      · obtain ⟨rfl, hrest⟩ := Prod.mk.inj (Except.ok.inj h)
        obtain ⟨-, rfl⟩ := Prod.mk.inj hrest
        exact ⟨_, hst⟩
      · split at h
        · cases h
        · obtain ⟨rfl, hrest⟩ := Prod.mk.inj (Except.ok.inj h)
          obtain ⟨-, rfl⟩ := Prod.mk.inj hrest
          exact ⟨_, hst⟩

theorem Advance.child {wave : List TaskId} (h : Advance id T T' wave) (hp : T'.get id = some p)
    (hpar : p.parentId ≠ some id) {c : Task} (hc : c ∈ T'.children id) :
    c.id ≠ id ∧ (c ∈ T.children id ∨ c.id ∈ wave) := by
  obtain ⟨hm, hcp⟩ := Table.mem_children.1 hc
  have hne : c.id ≠ id := by
    intro hid
    have hget := Table.mem_iff_get.1 hm
    rw [hid, hp] at hget
    exact hpar (Option.some.inj hget ▸ hcp)
  refine ⟨hne, (h.new c.id hne c (Table.mem_iff_get.1 hm)).imp_left fun hget => ?_⟩
  exact Table.mem_children.2 ⟨Table.mem_iff_get.2 hget, hcp⟩

theorem completeParentWith_driven {v : Option Json} (hooks : Hooks) (hp : T.get p.id = some p)
    (hw : p.state = .waiting) (hpar : p.parentId ≠ some p.id) (hi : p.phase + 1 ≤ phases.length)
    (hfin : ∀ c ∈ T.children p.id, Finished c)
    (h : onAllChildrenDone E phases plan aggregate p T = .ok (T₁, v, calls)) :
    ∃ T' p', completeParentWith E (onAllChildrenDone E phases plan aggregate) hooks p T =
        .ok (T', [.onAllChildrenDone p.id], some calls) ∧ T'.get p.id = some p' ∧
      Driven phases p.id (p.phase + 1) (some (resultsOf T (waveIds p))) T T' p p' calls := by
  obtain ⟨spawned, hst⟩ := onAllChildrenDone_started hp h
  obtain ⟨p₁, hp₁, hpar₁, -, hsame, hwave⟩ := hst.root
  unfold completeParentWith
  simp only [h, hp₁, Option.map_some]
  cases spawned with
  | true =>
    -- the new wave is live
    obtain ⟨l, c, -, -, hne, hadv, hw₁, -⟩ := hwave rfl
    obtain ⟨k, hk⟩ := List.exists_mem_of_ne_nil _ hne
    obtain ⟨-, d, hd, hdp, hds⟩ := hadv.wave k hk
    have hany : (T₁.children p.id).any (·.state ∈ activeStates) = true := by
      refine List.any_eq_true.2 ⟨d, Table.mem_children.2
        ⟨(Table.get_eq_some_iff.1 hd).1, hdp⟩, ?_⟩
      rw [hds]
      rfl
    obtain ⟨p', hp', hdriven⟩ := hst.driven hi
    refine ⟨T₁, p', ?_, hp', hdriven⟩
    simp [hw₁, hany]
  | false =>
    obtain ⟨-, -, hadv⟩ := hst.exhausted rfl
    have hany : (T₁.children p.id).any (·.state ∈ activeStates) = false := by
      rw [List.any_eq_false]
      intro c hc
      obtain ⟨-, hc | hc⟩ := hadv.child hp₁ (hpar₁ ▸ hpar) hc
      · simpa using (hfin c hc).not_active
      · cases hc
    obtain ⟨T₂, p', hm, hp', hdriven⟩ := hst.driven_done hi (.inr hw) E.now v
    refine ⟨T₂, p', ?_, hp', hdriven⟩
    simp [hsame rfl, hw, hany, hm]

/-! ## The check of the root -/

theorem checkWaitingParentWith_finished {γ : Type} {hook : Hook γ} (hp : T.get p.id = some p)
    (hw : p.state = .waiting) (hne : T.children p.id ≠ [])
    (hfin : ∀ c ∈ T.children p.id, Finished c) :
    checkWaitingParentWith E hook hooks p.id T = completeParentWith E hook hooks p T :=
  checkWaitingParentWith_complete hp hw (fun c hcm => (hfin c hcm).not_active) hne
    fun c hcm => (hfin c hcm).not_failed

end Driver

/-! ## The invariant -/

def Resolved (id : TaskId) (T : Table) (k : TaskId) : Prop :=
  k ≠ id ∧ ∃ c, T.get k = some c ∧ c.parentId = some id ∧ Finished c

/-- The last wave after a call, if it was `w` before. -/
def PlanCall.next (c : PlanCall) (w : Option (List TaskId)) : Option (List TaskId) :=
  if c.wave = [] then w else some c.wave

def lastWave (w : Option (List TaskId)) (calls : List PlanCall) : Option (List TaskId) :=
  calls.foldl (fun w c => c.next w) w

/-- Every call has got the results of the last wave before it, which they still are. -/
def PrevOk (id : TaskId) (T : Table) : Option (List TaskId) → List PlanCall → Prop
  | _, [] => True
  | w, c :: calls => (c.prev = w.map (resultsOf T) ∧
      ∀ ids, w = some ids → ∀ k ∈ ids, Resolved id T k) ∧ PrevOk id T (c.next w) calls

def Keeps (id : TaskId) (T T' : Table) : Prop :=
  ∀ k, Resolved id T k → Resolved id T' k ∧ (T'.get k).map childResult = (T.get k).map childResult

section Calls

variable {id : TaskId} {T T' : Table} {w : Option (List TaskId)} {l r : List PlanCall}

theorem lastWave_append : lastWave w (l ++ r) = lastWave (lastWave w l) r := List.foldl_append

theorem lastWave_empty (h : ∀ c ∈ l, c.wave = []) : lastWave w l = w := by
  induction l with
  | nil => rfl
  | cons c l ih =>
    obtain ⟨hc, hl⟩ := List.forall_mem_cons.1 h
    show lastWave (c.next w) l = w
    rw [PlanCall.next, if_pos hc]
    exact ih hl

theorem lastWave_concat {c : PlanCall} (hc : c.wave ≠ []) :
    lastWave w (l ++ [c]) = some c.wave := by
  rw [lastWave_append]
  show c.next (lastWave w l) = some c.wave
  rw [PlanCall.next, if_neg hc]

theorem prevOk_append : PrevOk id T w (l ++ r) ↔
    PrevOk id T w l ∧ PrevOk id T (lastWave w l) r := by
  induction l generalizing w with
  | nil => exact ⟨fun h => ⟨trivial, h⟩, And.right⟩
  | cons c l ih =>
    show _ ∧ PrevOk id T (c.next w) (l ++ r) ↔ (_ ∧ PrevOk id T (c.next w) l) ∧ _
    rw [ih]
    exact and_assoc.symm

/-- The calls of one transaction, of which none but the last has spawned a wave. -/
theorem prevOk_calls (hl : ∀ c ∈ l, c.wave = [])
    (hprev : ∀ c ∈ l ++ r, c.prev = w.map (resultsOf T)) (hr : r.length ≤ 1)
    (hres : ∀ ids, w = some ids → ∀ k ∈ ids, Resolved id T k) : PrevOk id T w (l ++ r) := by
  induction l with
  | nil =>
    cases r with
    | nil => trivial
    | cons c r =>
      obtain rfl : r = [] := List.eq_nil_of_length_eq_zero (by simpa using hr)
      exact ⟨⟨hprev c List.mem_cons_self, hres⟩, trivial⟩
  | cons c l ih =>
    obtain ⟨hc, hl⟩ := List.forall_mem_cons.1 hl
    obtain ⟨hpc, hprev⟩ := List.forall_mem_cons.1 hprev
    refine ⟨⟨hpc, hres⟩, ?_⟩
    rw [PlanCall.next, if_pos hc]
    exact ih hl hprev

theorem Keeps.results (h : Keeps id T T') {ids : List TaskId}
    (hres : ∀ k ∈ ids, Resolved id T k) : resultsOf T' ids = resultsOf T ids := by
  induction ids with
  | nil => rfl
  | cons k ids ih =>
    obtain ⟨hk, hids⟩ := List.forall_mem_cons.1 hres
    have htail : resultsOf T' ids = resultsOf T ids := ih hids
    unfold resultsOf at htail ⊢
    rw [List.filterMap_cons, List.filterMap_cons, (h k hk).2, htail]

theorem PrevOk.mono (hk : Keeps id T T') (h : PrevOk id T w l) : PrevOk id T' w l := by
  induction l generalizing w with
  | nil => trivial
  | cons c l ih =>
    obtain ⟨⟨hprev, hres⟩, hrest⟩ := h
    refine ⟨⟨?_, fun ids hw k hm => (hk k (hres ids hw k hm)).1⟩, ih hrest⟩
    rw [hprev]
    cases w with
    | none => rfl
    | some ids => exact congrArg some (hk.results (hres ids rfl)).symm

theorem Keeps.of_get (h : ∀ k ≠ id, ∀ c, T.get k = some c → T'.get k = some c) :
    Keeps id T T' := by
  rintro k ⟨hne, c, hc, hpar, hfin⟩
  exact ⟨⟨hne, c, h k hne c hc, hpar, hfin⟩, by rw [hc, h k hne c hc]⟩

theorem KeepsOthers.keeps (h : KeepsOthers id T T') : Keeps id T T' := by
  refine .of_get fun k hne c hc => ?_
  obtain ⟨hm, rfl⟩ := Table.get_eq_some_iff.1 hc
  exact Table.mem_iff_get.1 (h.old c hm hne)

theorem childResult_congr {c c' : Task} (hid : c'.id = c.id) (hf : Finished c)
    (hs : c'.state = c.state) (hr : c'.taskResult = c.taskResult) :
    childResult c' = childResult c := by
  unfold childResult
  rw [hid, hs, hr]
  rcases hf with hf | hf <;> simp [hf]

theorem Elsewhere.keeps (h : Elsewhere id T T') : Keeps id T T' := by
  rintro k ⟨hne, c, hc, hpar, hfin⟩
  obtain ⟨hm, rfl⟩ := Table.get_eq_some_iff.1 hc
  obtain ⟨c', hm', hid, hpar', hkept⟩ := h.2.1 c hm hpar
  obtain ⟨hs, hr⟩ := hkept hfin
  have hget : T'.get c.id = some c' := Table.get_eq_some_iff.2 ⟨hm', hid⟩
  refine ⟨⟨hne, c', hget, hpar', by unfold Finished; rw [hs]; exact hfin⟩, ?_⟩
  rw [hc, hget, Option.map_some, Option.map_some, childResult_congr hid hfin hs hr]

end Calls

namespace Pipeline

/-- The root and its children, while the attempt lasts. -/
structure Attempt (phases : List String) (id : TaskId) (s : Pipeline) (p : Task) : Prop where
  running : p.state = .running → s.plans = []
  waiting : p.state = .waiting → ∃ l c, s.plans = l ++ [c] ∧ c.wave ≠ [] ∧ waveIds p = c.wave ∧
    p.phase = c.index
  done : p.state = .done → s.plans.length = phases.length ∧ ∀ c ∈ s.table.children id, Finished c
  parent : p.parentId ≠ some id
  children : ∀ c ∈ s.table.children id, Finished c ∨
    ∃ ids, lastWave none s.plans = some ids ∧ c.id ∈ ids
  wave : ∀ ids, lastWave none s.plans = some ids → ∀ k ∈ ids, k ≠ id ∧
    ∃ c, s.table.get k = some c ∧ c.parentId = some id
  data : SameData p.phaseData s.stored

structure Ok (phases : List String) (id : TaskId) (s : Pipeline) : Prop where
  indices : s.plans.map PlanCall.index = List.range s.plans.length
  bound : s.plans.length ≤ phases.length
  sizes : ∀ c ∈ s.plans, c.wave.length = c.specs.length
  prevs : PrevOk id s.table none s.plans
  root : ∃ p, s.table.get id = some p ∧ (p.state ∈ attemptStates → s.Attempt phases id p)

variable {phases : List String} {id : TaskId} {s s' : Pipeline} {p p' : Task} {T : Table}
  {calls : List PlanCall}

theorem Start.ok (h : s.Start id) : s.Ok phases id := by
  obtain ⟨p, hp, hr, hst⟩ := h.root
  refine ⟨by simp [h.plans], by simp [h.plans], by simp [h.plans], by rw [h.plans]; trivial,
    p, hp, fun _ => ⟨fun _ => h.plans, ?_, ?_, fun hpar => ?_, fun c hc => .inl (h.finished c hc),
      ?_, hst ▸ .refl _⟩⟩
  · rw [hr]; exact nofun
  · rw [hr]; exact nofun
  · -- the root is no child of its own: it runs
    have hm := (Table.get_eq_some_iff.1 hp).1
    have hf := h.finished p (Table.mem_children.2 ⟨hm, hpar⟩)
    rcases hf with hs | hs <;> rw [hr] at hs <;> cases hs
  · rw [h.plans]; exact nofun

/-- The place of a waiting root: its last call of `plan_phase` has spawned the current wave. -/
theorem Attempt.place (ha : s.Attempt phases id p) (ho : s.Ok phases id) (hw : p.state = .waiting) :
    p.phase + 1 = s.plans.length ∧ lastWave none s.plans = some (waveIds p) ∧ waveIds p ≠ [] := by
  obtain ⟨l, c, hl, hne, hids, hph⟩ := ha.waiting hw
  have hix := ho.indices
  rw [hl, List.map_append, List.length_append, List.length_singleton, List.range_succ] at hix
  have hc := (List.append_inj' hix rfl).2
  simp only [List.map_cons, List.map_nil, List.cons.injEq, and_true] at hc
  refine ⟨by rw [hl, hph, hc, List.length_append]; rfl, ?_, hids ▸ hne⟩
  rw [hl, hids]
  exact lastWave_concat hne

theorem Attempt.resolved (ha : s.Attempt phases id p)
    (hfin : ∀ c ∈ s.table.children id, Finished c) {ids : List TaskId}
    (hids : lastWave none s.plans = some ids) : ∀ k ∈ ids, Resolved id s.table k := by
  intro k hk
  obtain ⟨hne, c, hc, hpar⟩ := ha.wave ids hids k hk
  have hm := (Table.get_eq_some_iff.1 hc).1
  exact ⟨hne, c, hc, hpar, hfin c (Table.mem_children.2 ⟨hm, hpar⟩)⟩

/-- **Invariant**, for the transactions of the driver. -/
theorem Ok.commit (ho : s.Ok phases id) (ha : s.Attempt phases id p)
    (hfin : ∀ c ∈ s.table.children id, Finished c) (hp' : T.get id = some p')
    (hd : Driven phases id s.plans.length ((lastWave none s.plans).map (resultsOf s.table))
      s.table T p p' calls) : (s.commit T calls).Ok phases id := by
  have hres : ∀ ids, lastWave none s.plans = some ids → ∀ k ∈ ids, Resolved id s.table k :=
    fun _ hids => ha.resolved hfin hids
  have hadv : ∃ wave, Advance id s.table T wave ∧ lastWave none (s.plans ++ calls) =
      if wave = [] then lastWave none s.plans else some wave := by
    rcases hd.outcome with ⟨l, c, rfl, hl, hne, hadv, -⟩ | ⟨hall, -, hadv, -⟩
    · refine ⟨c.wave, hadv, ?_⟩
      rw [if_neg hne, ← List.append_assoc, lastWave_concat hne]
    · refine ⟨[], hadv, ?_⟩
      rw [if_pos rfl, lastWave_append, lastWave_empty hall]
  obtain ⟨wave, hadv, hlast⟩ := hadv
  have hkeeps : Keeps id s.table T := .of_get hadv.old
  have hpar : p'.parentId ≠ some id := hd.parent ▸ ha.parent
  have hchild : ∀ c ∈ T.children id, Finished c ∨ c.id ∈ wave := fun c hc =>
    (hadv.child hp' hpar hc).2.imp_left (hfin c)
  refine ⟨?_, ?_, ?_, ?_, p', hp', fun _ => ⟨fun hr => ?_, fun hw => ?_, fun hdone => ?_, hpar,
    fun c hc => ?_, fun ids hids k hk => ?_, ?_⟩⟩
  · show (s.plans ++ calls).map PlanCall.index = List.range (s.plans ++ calls).length
    rw [List.map_append, ho.indices, hd.indices, List.length_append, List.range_eq_range',
      List.range_eq_range']
    simpa using List.range'_append_1 (s := 0) (m := s.plans.length) (n := calls.length)
  · show (s.plans ++ calls).length ≤ phases.length
    rw [List.length_append]
    exact hd.bound
  · exact List.forall_mem_append.2 ⟨ho.sizes, hd.sizes⟩
  · refine prevOk_append.2 ⟨ho.prevs.mono hkeeps, ?_⟩
    have hprevs : ∀ c ∈ calls, c.prev = (lastWave none s.plans).map (resultsOf T) := by
      intro c hc
      rw [hd.prevs c hc]
      cases hids : lastWave none s.plans with
      | none => rfl
      | some ids => exact congrArg some (hkeeps.results (hres ids hids)).symm
    have hres' := fun ids hids k hk => (hkeeps k (hres ids hids k hk)).1
    rcases hd.outcome with ⟨l, c, rfl, hl, -⟩ | ⟨hall, -⟩
    · exact prevOk_calls hl hprevs (Nat.le_refl 1) hres'
    · have h := prevOk_calls (r := []) hall (by simpa using hprevs) (Nat.zero_le 1) hres'
      rwa [List.append_nil] at h
  · rcases hd.outcome with ⟨_, _, _, _, _, _, hw, _⟩ | ⟨_, _, _, hdone⟩
    · rw [hr] at hw; cases hw
    · rw [hr] at hdone; cases hdone
  · rcases hd.outcome with ⟨l, c, rfl, -, hne, -, -, hids, hph⟩ | ⟨-, -, -, hdone⟩
    · exact ⟨s.plans ++ l, c, (List.append_assoc _ _ _).symm, hne, hids, hph⟩
    · rw [hw] at hdone; cases hdone
  · rcases hd.outcome with ⟨_, _, _, _, _, _, hw, _⟩ | ⟨-, hlen, hadv₀, -⟩
    · rw [hdone] at hw; cases hw
    · refine ⟨by rw [← hlen]; exact List.length_append, fun c hc => ?_⟩
      exact (hadv₀.child hp' hpar hc).2.elim (hfin c) nofun
  · rcases hchild c hc with hf | hm
    · exact .inl hf
    · refine .inr ⟨wave, ?_, hm⟩
      show lastWave none (s.plans ++ calls) = some wave
      rw [hlast, if_neg (List.ne_nil_of_mem hm)]
  · have hids : lastWave none (s.plans ++ calls) = some ids := hids
    rw [hlast] at hids
    split_ifs at hids with hnil
    · obtain ⟨hne, c, hc, hcp, -⟩ := (hkeeps k (hres ids hids k hk)).1
      exact ⟨hne, c, hc, hcp⟩
    · obtain rfl := Option.some.inj hids
      obtain ⟨hne, c, hc, hcp, -⟩ := hadv.wave k hk
      exact ⟨hne, c, hc, hcp⟩
  · exact hd.data.trans (ha.data.mergeAll _)

theorem Ok.left (ho : s.Ok phases id) (hk : Keeps id s.table T) (hp' : T.get id = some p')
    (hs : p'.state ∉ attemptStates) : { s with table := T : Pipeline }.Ok phases id where
  indices := ho.indices
  bound := ho.bound
  sizes := ho.sizes
  prevs := ho.prevs.mono hk
  root := ⟨p', hp', fun h => absurd h hs⟩

section Steps

variable {E : Env} {plan : PlanPhase} {aggregate : List ChildResult → Except Exc (Option Json)}
  {onFailure : HookRun}

theorem check_active (hp : s.table.get id = some p) (hw : p.state = .waiting)
    (hact : ∃ c ∈ s.table.children id, c.state ∈ activeStates)
    (h : s.step phases id (.check E plan aggregate onFailure) = some s') : s' = s := by
  obtain ⟨-, rfl⟩ := Table.get_eq_some_iff.1 hp
  simp only [step, checkWaitingParentWith_active hp hw hact] at h
  exact (Option.some.inj h).symm

theorem Attempt.children_ne_nil (ha : s.Attempt phases id p) (ho : s.Ok phases id)
    (hw : p.state = .waiting) : s.table.children id ≠ [] := by
  obtain ⟨-, hlast, hne⟩ := ha.place ho hw
  obtain ⟨k, hk⟩ := List.exists_mem_of_ne_nil _ hne
  obtain ⟨-, c, hc, hpar⟩ := ha.wave _ hlast k hk
  exact List.ne_nil_of_mem (Table.mem_children.2 ⟨(Table.get_eq_some_iff.1 hc).1, hpar⟩)

theorem check_returns (ho : s.Ok phases id) (ha : s.Attempt phases id p)
    (hp : s.table.get id = some p) (hw : p.state = .waiting)
    (hfin : ∀ c ∈ s.table.children id, Finished c) {T₁ : Table} {v : Option Json}
    (hook : onAllChildrenDone E phases plan aggregate p s.table = .ok (T₁, v, calls))
    (h : s.step phases id (.check E plan aggregate onFailure) = some s') :
    ∃ T p', s' = s.commit T calls ∧ T.get id = some p' ∧ Driven phases id s.plans.length
      ((lastWave none s.plans).map (resultsOf s.table)) s.table T p p' calls := by
  obtain ⟨hph, hlast, -⟩ := ha.place ho hw
  have hne := ha.children_ne_nil ho hw
  obtain ⟨-, rfl⟩ := Table.get_eq_some_iff.1 hp
  obtain ⟨T, p', hcheck, hp', hd⟩ := completeParentWith_driven ⟨fun _ => {}, fun _ => onFailure⟩
    hp hw ha.parent (by rw [hph]; exact ho.bound) hfin hook
  simp only [step, checkWaitingParentWith_finished hp hw hne hfin, hcheck] at h
  rw [hlast, ← hph]
  exact ⟨T, p', (Option.some.inj h).symm, hp', hd⟩

/-- A check of which `on_all_children_done` raises: a retry leaves everything as it was, and any
other exception fails the root, if it changes anything. -/
theorem check_raises (hp : s.table.get id = some p) (hw : p.state = .waiting)
    (hne : s.table.children id ≠ []) (hfin : ∀ c ∈ s.table.children id, Finished c) {exc : Exc}
    (hook : onAllChildrenDone E phases plan aggregate p s.table = .error exc)
    (h : s.step phases id (.check E plan aggregate onFailure) = some s') :
    s' = s ∨ (∃ text, exc = .other text) ∧ ∃ T p', s' = { s with table := T } ∧
      Keeps id s.table T ∧ T.get id = some p' ∧ p'.state = .failed := by
  obtain ⟨-, rfl⟩ := Table.get_eq_some_iff.1 hp
  have hc : ∀ c ∈ s.table.children p.id, c.state ∉ activeStates := fun c hcm =>
    (hfin c hcm).not_active
  simp only [step, checkWaitingParentWith_finished hp hw hne hfin, completeParentWith, hook] at h
  cases exc with
  | transientError => exact .inl (Option.some.inj h).symm
  | retryTask after => exact .inl (Option.some.inj h).symm
  | other text =>
    cases hfail : failParent E ⟨fun _ => {}, fun _ => onFailure⟩ (.raised (.other text))
        ("on_all_children_done failed: " ++ text) p s.table with
    | error e =>
      simp only [hfail] at h
      exact .inl (Option.some.inj h).symm
    | ok r =>
      simp only [hfail] at h
      obtain ⟨hk, p', hp', hf⟩ := failParent_ok hp hw hc hfail
      exact .inr ⟨⟨text, rfl⟩, r.1, p', (Option.some.inj h).symm, hk.keeps, hp', hf⟩

/-- What a check of a waiting root can do. -/
theorem check_cases (ho : s.Ok phases id) (ha : s.Attempt phases id p)
    (hp : s.table.get id = some p) (hw : p.state = .waiting)
    (h : s.step phases id (.check E plan aggregate onFailure) = some s') :
    s' = s ∨ (∃ T p', s' = { s with table := T } ∧ Keeps id s.table T ∧ T.get id = some p' ∧
        p'.state = .failed) ∨
      ((∀ c ∈ s.table.children id, Finished c) ∧ ∃ T p' calls, s' = s.commit T calls ∧
        T.get id = some p' ∧ Driven phases id s.plans.length
          ((lastWave none s.plans).map (resultsOf s.table)) s.table T p p' calls) := by
  by_cases hact : ∃ c ∈ s.table.children id, c.state ∈ activeStates
  · exact .inl (check_active hp hw hact h)
  have hc : ∀ c ∈ s.table.children id, c.state ∉ activeStates := fun c hcm hs => hact ⟨c, hcm, hs⟩
  by_cases hf : ∃ c ∈ s.table.children id, c.state = .failed
  · obtain ⟨-, rfl⟩ := Table.get_eq_some_iff.1 hp
    simp only [step] at h
    split at h
    · next T x calls hr => exact absurd (checkWaitingParentWith_failed hp hw hc hf hr).1 nofun
    · next T x hr =>
      obtain ⟨-, rfl | ⟨hk, p', hp', hs⟩⟩ := checkWaitingParentWith_failed hp hw hc hf hr
      · exact .inl (Option.some.inj h).symm
      · exact .inr (.inl ⟨T, p', (Option.some.inj h).symm, hk.keeps, hp', hs⟩)
    · exact .inl (Option.some.inj h).symm
  · have hfin : ∀ c ∈ s.table.children id, Finished c := fun c hcm =>
      .of_not (hc c hcm) fun hs => hf ⟨c, hcm, hs⟩
    cases hook : onAllChildrenDone E phases plan aggregate p s.table with
    | ok r =>
      obtain ⟨T, p', hr⟩ := check_returns ho ha hp hw hfin hook h
      exact .inr (.inr ⟨hfin, T, p', _, hr⟩)
    | error exc =>
      exact (check_raises hp hw (ha.children_ne_nil ho hw) hfin hook h).imp_right
        fun hr => .inl hr.2

theorem check_idle (hp : s.table.get id = some p) (hw : p.state ≠ .waiting)
    (h : s.step phases id (.check E plan aggregate onFailure) = some s') : s' = s := by
  simp only [step, checkWaitingParentWith, hp, if_pos hw] at h
  exact (Option.some.inj h).symm

/-- Before `execute()` has committed, no child is left. -/
theorem Attempt.finished_of_running (ha : s.Attempt phases id p) (hr : p.state = .running) :
    ∀ c ∈ s.table.children id, Finished c := by
  intro c hc
  rcases ha.children c hc with hf | ⟨ids, hids, -⟩
  · exact hf
  · rw [ha.running hr] at hids
    cases hids

theorem execute_cases (ha : s.Attempt phases id p)
    (hp : s.table.get id = some p) (hr : p.state = .running)
    (h : s.step phases id (.execute E plan) = some s') :
    (∀ c ∈ s.table.children id, Finished c) ∧
      ((s' = s ∧ ∃ exc, executeRoot E phases plan id s.table = .error exc) ∨
        ∃ T p' calls, executeRoot E phases plan id s.table = .ok (T, calls) ∧
          s' = s.commit T calls ∧ T.get id = some p' ∧ Driven phases id s.plans.length
            ((lastWave none s.plans).map (resultsOf s.table)) s.table T p p' calls) := by
  refine ⟨ha.finished_of_running hr, ?_⟩
  simp only [step, hp, Option.map_some, hr, if_true] at h
  split at h
  · next T calls hx =>
    obtain ⟨p', hp', hd⟩ := executeRoot_driven hp hr hx
    rw [ha.running hr]
    exact .inr ⟨T, p', calls, hx, (Option.some.inj h).symm, hp', hd⟩
  · next exc hx => exact .inl ⟨(Option.some.inj h).symm, exc, hx⟩

theorem Ok.store {vals : List (String × Json)} (ho : s.Ok phases id)
    (hvals : "child_ids" ∉ vals.map Prod.fst) :
    { s with
      table := s.table.update id (storePhaseData vals)
      stored := mergeData vals s.stored : Pipeline }.Ok phases id := by
  obtain ⟨p, hp, ha⟩ := ho.root
  obtain ⟨-, rfl⟩ := Table.get_eq_some_iff.1 hp
  have hp' := Table.get_update_self (f := storePhaseData vals) hp
  have hadv : Advance p.id s.table (s.table.update p.id (storePhaseData vals)) [] :=
    (Advance.refl p.id s.table).updated _
  have hids : waveIds { storePhaseData vals p with id := p.id } = waveIds p :=
    waveIds_store hvals
  refine ⟨ho.indices, ho.bound, ho.sizes, ho.prevs.mono (.of_get hadv.old), _, hp', fun hs => ?_⟩
  have ha := ha hs
  have hold : ∀ c ∈ (s.table.update p.id (storePhaseData vals)).children p.id,
      c ∈ s.table.children p.id := fun c hc => (hadv.child hp' ha.parent hc).2.resolve_right nofun
  refine ⟨ha.running, fun hw => ?_, fun hd => ?_, ha.parent,
    fun c hc => ha.children c (hold c hc), fun ids hl k hk => ?_, ha.data.merge vals⟩
  · obtain ⟨l, c, hl, hne, hwave, hph⟩ := ha.waiting hw
    exact ⟨l, c, hl, hne, hids.trans hwave, hph⟩
  · obtain ⟨hlen, hfin⟩ := ha.done hd
    exact ⟨hlen, fun c hc => hfin c (hold c hc)⟩
  · obtain ⟨hne, c, hc, hpar⟩ := ha.wave ids hl k hk
    exact ⟨hne, c, hadv.old k hne c hc, hpar⟩

theorem Ok.elsewhere (ho : s.Ok phases id) (h : Elsewhere id s.table T) :
    { s with table := T : Pipeline }.Ok phases id := by
  have hkeeps := h.keeps
  obtain ⟨⟨p, hm, p', hm', hid, hid', hstate, hph, hdata⟩, hold, hnew⟩ := h
  obtain ⟨q, hq, ha⟩ := ho.root
  obtain rfl := Option.some.inj (hq.symm.trans (Table.get_eq_some_iff.2 ⟨hm, hid⟩))
  have hp' : T.get id = some p' := Table.get_eq_some_iff.2 ⟨hm', hid'⟩
  rcases hstate with hstate | hstate
  swap
  · exact ho.left hkeeps hp' hstate
  refine ⟨ho.indices, ho.bound, ho.sizes, ho.prevs.mono hkeeps, p', hp', fun hs => ?_⟩
  have ha := ha (hstate ▸ hs)
  -- a child after the step is one from before, and finished if it was
  have hchild : ∀ c' ∈ T.children id, ∃ c ∈ s.table.children id, c.id = c'.id ∧
      (Finished c → Finished c') := by
    intro c' hc'
    obtain ⟨hc', hpar'⟩ := Table.mem_children.1 hc'
    obtain ⟨c, hc, hcid, hpar⟩ := hnew c' hc' hpar'
    obtain ⟨d, hd, hdid, -, hkept⟩ := hold c hc hpar
    obtain rfl := Table.eq_of_id hd hc' (hdid.trans hcid)
    refine ⟨c, Table.mem_children.2 ⟨hc, hpar⟩, hcid, fun hf => ?_⟩
    unfold Finished
    rw [(hkept hf).1]
    exact hf
  refine ⟨fun hr => ha.running (hstate ▸ hr), fun hw => ?_, fun hd => ?_, fun hpar => ?_,
    fun c' hc' => ?_, fun ids hl k hk => ?_, hdata ▸ ha.data⟩
  · obtain ⟨l, c, hl, hne, hids, hix⟩ := ha.waiting (hstate ▸ hw)
    refine ⟨l, c, hl, hne, ?_, hph.trans hix⟩
    rw [← hids]
    unfold waveIds
    rw [hdata]
  · obtain ⟨hlen, hfin⟩ := ha.done (hstate ▸ hd)
    refine ⟨hlen, fun c' hc' => ?_⟩
    obtain ⟨c, hc, -, hf⟩ := hchild c' hc'
    exact hf (hfin c hc)
  · obtain ⟨c, hc, hcid, hcp⟩ := hnew p' hm' hpar
    obtain rfl := Table.eq_of_id hc hm (hcid.trans (hid'.trans hid.symm))
    exact ha.parent hcp
  · obtain ⟨c, hc, hcid, hf⟩ := hchild c' hc'
    rw [← hcid]
    exact (ha.children c hc).imp_left hf
  · obtain ⟨hne, c, hc, hpar⟩ := ha.wave ids hl k hk
    obtain ⟨hcm, rfl⟩ := Table.get_eq_some_iff.1 hc
    obtain ⟨c', hc', hcid, hpar', -⟩ := hold c hcm hpar
    exact ⟨hne, c', Table.get_eq_some_iff.2 ⟨hc', hcid⟩, hpar'⟩

/-- **Invariant.** Every step keeps it. -/
theorem Ok.step {ev : PipelineEv} (ho : s.Ok phases id) (hok : s.admits id ev)
    (h : s.step phases id ev = some s') : s'.Ok phases id := by
  obtain ⟨p, hp, ha⟩ := ho.root
  cases ev with
  | execute E plan =>
    have hr : p.state = .running := by
      by_contra hr
      simp [Pipeline.step, hp, hr] at h
    have ha := ha (by rw [hr]; decide)
    obtain ⟨hfin, ⟨rfl, -⟩ | ⟨T, p', calls, -, rfl, hp', hd⟩⟩ := execute_cases ha hp hr h
    · exact ho
    · exact ho.commit ha hfin hp' hd
  | check E plan aggregate onFailure =>
    by_cases hw : p.state = .waiting
    · have ha := ha (by rw [hw]; decide)
      rcases check_cases ho ha hp hw h with
        rfl | ⟨T, p', rfl, hk, hp', hs⟩ | ⟨hfin, T, p', calls, rfl, hp', hd⟩
      · exact ho
      · exact ho.left hk hp' (by rw [hs]; decide)
      · exact ho.commit ha hfin hp' hd
    · rw [check_idle hp hw h]
      exact ho
  | store vals =>
    obtain rfl := Option.some.inj h
    exact ho.store hok
  | elsewhere T =>
    obtain rfl := Option.some.inj h
    exact ho.elsewhere hok

theorem Ok.path {s₀ : Pipeline} {es : List PipelineEv} (h0 : s₀.Start id)
    (hp : Path (Pipeline.step phases id) (Pipeline.admits id) s₀ es s) : s.Ok phases id :=
  hp.inv (fun _ _ _ ho hok h => ho.step hok h) h0.ok

end Steps

/-! ## The result -/

/-- The last wave is terminal: its children are done or cancelled. -/
def LastWaveFinished (id : TaskId) (s : Pipeline) : Prop :=
  ∀ ids, lastWave none s.plans = some ids → ∀ k ∈ ids, Resolved id s.table k

/-- The phases are planned in order, each at most once, and each spawns at most one wave, of the
children that it has planned; every call of `plan_phase` has got the results of the last wave before
it, if there was one. While the attempt lasts, the blob of the root holds what was stored, the root
waits while a child is active, and it is done only with every phase planned and no child left. -/
structure InOrder (phases : List String) (id : TaskId) (s : Pipeline) : Prop where
  planned : s.plans.map PlanCall.index = List.range s.plans.length
  bound : s.plans.length ≤ phases.length
  increasing : ((s.plans.filter (·.wave ≠ [])).map PlanCall.index).Pairwise (· < ·)
  sizes : ∀ c ∈ s.plans, c.wave.length = c.specs.length
  prev : ∀ l c r, s.plans = l ++ c :: r → c.prev = (lastWave none l).map (resultsOf s.table) ∧
    ∀ ids, lastWave none l = some ids → ∀ k ∈ ids, Resolved id s.table k
  stored : ∀ p, s.table.get id = some p → p.state ∈ attemptStates → SameData p.phaseData s.stored
  live : ∀ p, s.table.get id = some p → p.state ∈ attemptStates →
    (∃ c ∈ s.table.children id, c.state ∈ activeStates) → p.state = .waiting
  done : ∀ p, s.table.get id = some p → p.state = .done →
    s.plans.length = phases.length ∧ ∀ c ∈ s.table.children id, Finished c

/-- The root waits or is done, and it is done exactly when every phase has been planned and the last
wave is terminal. -/
def Moved (phases : List String) (id : TaskId) (s : Pipeline) : Prop :=
  ∃ p, s.table.get id = some p ∧ (p.state = .waiting ∨ p.state = .done) ∧
    (p.state = .done ↔ s.plans.length = phases.length ∧ s.LastWaveFinished id)

theorem Ok.inOrder (ho : s.Ok phases id) : s.InOrder phases id := by
  obtain ⟨p, hp, ha⟩ := ho.root
  have hroot : ∀ q, s.table.get id = some q → q = p := fun q hq =>
    Option.some.inj (hq.symm.trans hp)
  refine ⟨ho.indices, ho.bound, ?_, ho.sizes, fun l c r hl => ?_, fun q hq hs => ?_,
    fun q hq hs ⟨c, hc, hact⟩ => ?_, fun q hq hd => ?_⟩
  · have hsub : ((s.plans.filter (·.wave ≠ [])).map PlanCall.index).Sublist
        (List.range s.plans.length) := ho.indices ▸ List.filter_sublist.map PlanCall.index
    exact List.pairwise_lt_range.sublist hsub
  · have hprevs := ho.prevs
    rw [hl] at hprevs
    exact (prevOk_append.1 hprevs).2.1
  · obtain rfl := hroot q hq
    exact (ha hs).data
  · obtain rfl := hroot q hq
    simp only [attemptStates, List.mem_cons, List.not_mem_nil, or_false] at hs
    rcases hs with hr | hw | hd
    · exact absurd hact ((ha (by rw [hr]; decide)).finished_of_running hr c hc).not_active
    · exact hw
    · exact absurd hact (((ha (by rw [hd]; decide)).done hd).2 c hc).not_active
  · obtain rfl := hroot q hq
    exact (ha (by rw [hd]; decide)).done hd

theorem Attempt.finished (ha : s.Attempt phases id p) (h : s.LastWaveFinished id) :
    ∀ c ∈ s.table.children id, Finished c := by
  intro c hc
  rcases ha.children c hc with hf | ⟨ids, hids, hk⟩
  · exact hf
  · obtain ⟨-, d, hd, -, hf⟩ := h ids hids c.id hk
    have hget := Table.mem_iff_get.1 (Table.mem_children.1 hc).1
    obtain rfl := Option.some.inj (hd.symm.trans hget)
    exact hf

theorem Ok.moved (ho : (s.commit T calls).Ok phases id) (hp' : T.get id = some p')
    {prev : Option (List ChildResult)}
    (hd : Driven phases id s.plans.length prev s.table T p p' calls) :
    (s.commit T calls).Moved phases id := by
  obtain ⟨q, hq, ha⟩ := ho.root
  obtain rfl := Option.some.inj (hp'.symm.trans hq)
  refine ⟨_, hp', ?_, fun hdone => ?_, fun h => ?_⟩
  · rcases hd.outcome with ⟨_, _, _, _, _, _, hw, _⟩ | ⟨_, _, _, hdone⟩
    · exact .inl hw
    · exact .inr hdone
  · have ha := ha (by rw [hdone]; decide)
    exact ⟨(ha.done hdone).1, fun ids hids => ha.resolved (ha.done hdone).2 hids⟩
  · rcases hd.outcome with ⟨l, c, rfl, -, hne, hadv, -⟩ | ⟨-, -, -, hdone⟩
    · -- the children of the new wave are pending
      obtain ⟨k, hk⟩ := List.exists_mem_of_ne_nil _ hne
      have hids : lastWave none (s.commit T (l ++ [c])).plans = some c.wave := by
        show lastWave none (s.plans ++ (l ++ [c])) = some c.wave
        rw [← List.append_assoc, lastWave_concat hne]
      obtain ⟨-, d, hd, -, hf⟩ := h.2 _ hids k hk
      obtain ⟨-, e, he, -, hs⟩ := hadv.wave k hk
      obtain rfl := Option.some.inj (hd.symm.trans he)
      rcases hf with hf | hf <;> rw [hs] at hf <;> cases hf
    · exact hdone

end Pipeline

/-- **Pipelines.** In every run of an attempt the phases are planned in order. The transaction of
`execute()` and a check of the root change nothing if they are rolled back for a retry, or while a
child is active; when the driver returns, the root is done exactly when every phase has been planned
and the last wave is terminal, and waits otherwise. -/
theorem pipeline_in_order {phases : List String} {id : TaskId} {s₀ s : Pipeline}
    {es : List PipelineEv} (h0 : s₀.Start id)
    (hp : Path (Pipeline.step phases id) (Pipeline.admits id) s₀ es s) :
    s.InOrder phases id ∧ ∀ p, s.table.get id = some p →
      (p.state = .running → ∀ E plan s', s.step phases id (.execute E plan) = some s' →
        (∀ exc, executeRoot E phases plan id s.table = .error exc → s' = s) ∧
        ∀ r, executeRoot E phases plan id s.table = .ok r → s'.Moved phases id) ∧
      (p.state = .waiting → ∀ E plan aggregate onFailure s',
        s.step phases id (.check E plan aggregate onFailure) = some s' →
          ((∃ c ∈ s.table.children id, c.state ∈ activeStates) → s' = s) ∧
          (s.LastWaveFinished id →
            (∀ exc, onAllChildrenDone E phases plan aggregate p s.table = .error exc →
              (∀ text, exc ≠ .other text) → s' = s) ∧
            ∀ r, onAllChildrenDone E phases plan aggregate p s.table = .ok r →
              s'.Moved phases id)) := by
  have ho : s.Ok phases id := .path h0 hp
  refine ⟨ho.inOrder, fun p hroot => ⟨fun hr E plan s' h => ?_,
    fun hw E plan aggregate onFailure s' h => ⟨fun hact => ?_,
      fun hlast => ⟨fun exc hook hexc => ?_, fun r hook => ?_⟩⟩⟩⟩
  all_goals
    obtain ⟨q, hq, ha⟩ := ho.root
    obtain rfl := Option.some.inj (hroot.symm.trans hq)
  · have ha := ha (by rw [hr]; decide)
    have hadmits : s.admits id (.execute E plan) := trivial
    have ho' := ho.step hadmits h
    obtain ⟨-, ⟨rfl, exc, hexc⟩ | ⟨T, p', calls, hok, rfl, hp', hd⟩⟩ :=
      Pipeline.execute_cases ha hroot hr h
    · refine ⟨fun _ _ => rfl, fun r hok => ?_⟩
      rw [hexc] at hok
      cases hok
    · refine ⟨fun exc hexc => ?_, fun _ _ => ho'.moved hp' hd⟩
      rw [hok] at hexc
      cases hexc
  · exact Pipeline.check_active hroot hw hact h
  · have ha := ha (by rw [hw]; decide)
    rcases Pipeline.check_raises hroot hw (ha.children_ne_nil ho hw) (ha.finished hlast) hook h with
      hs | ⟨⟨text, ht⟩, -⟩
    · exact hs
    · exact absurd ht (hexc text)
  · have ha := ha (by rw [hw]; decide)
    have hadmits : s.admits id (.check E plan aggregate onFailure) := trivial
    have ho' := ho.step hadmits h
    obtain ⟨T, p', rfl, hp', hd⟩ := Pipeline.check_returns ho ha hroot hw (ha.finished hlast) hook h
    exact ho'.moved hp' hd

def exportRoot : Table where
  rows := [{ id := 1, name := "export", typeCode := "pipeline", state := .running, dateCreated := 10
             createUid := 2 }]
  nodup := by simp

def exportPhases : List String := ["prepare", "check", "upload"]

/-- Two chunks are prepared, nothing is checked, and a document is uploaded for each chunk that is
done. -/
def exportPlan : PlanPhase := fun _ name prev =>
  if name = "prepare" then
    { stores := [[("note", .int 7)]], result := .ok (.homogeneous "leaf" (some [none, none])) }
  else if name = "check" then {}
  else { result := .ok (.specs (((prev.getD []).filter (·.state = .done)).map fun _ =>
    { typeCode := "leaf", name := some "upload" })) }

/-- The chunk is done, and its sibling is cancelled. -/
def chunkDone (T : Table) : Table :=
  (T.update 2 fun c => { c with state := .done, taskResult := some (.int 5) }).update 3 fun c =>
    { c with state := .cancelled }

/-- `execute()`; the children of its wave end; a check that asks for a retry, and one that spawns
the wave of the last phase. -/
def exportRun : List PipelineEv := [
  .execute pipelineEnv exportPlan,
  .elsewhere (chunkDone (reached (Pipeline.step exportPhases 1) (Pipeline.admits 1)
    ⟨exportRoot, [], []⟩ [.execute pipelineEnv exportPlan]).table),
  .check pipelineEnv (fun _ _ _ => { result := .error (.retryTask none) }) (fun _ => .ok none) {},
  .check pipelineEnv exportPlan (fun _ => .ok none) {}]

def uploadDone (T : Table) : Table := T.update 4 fun c => { c with state := .done }

theorem exportRun_in_order : ∃ s s', Path (Pipeline.step exportPhases 1) (Pipeline.admits 1)
      ⟨exportRoot, [], []⟩ (exportRun ++ [.elsewhere (uploadDone (reached (Pipeline.step
        exportPhases 1) (Pipeline.admits 1) ⟨exportRoot, [], []⟩ exportRun).table)]) s ∧
    s.InOrder exportPhases 1 ∧
    s.plans.map (fun c => (c.index, c.wave)) = [(0, [2, 3]), (1, []), (2, [4])] ∧
    s.step exportPhases 1 (.check pipelineEnv exportPlan (fun _ => .ok (some (.int 1))) {}) =
      some s' ∧
    s'.Moved exportPhases 1 ∧ (s'.table.get 1).map Task.state = some .done := by
  have h0 : Pipeline.Start 1 ⟨exportRoot, [], []⟩ := ⟨⟨_, rfl, rfl, rfl⟩, by decide, rfl⟩
  have hp : Path (Pipeline.step exportPhases 1) (Pipeline.admits 1) ⟨exportRoot, [], []⟩
      (exportRun ++ [.elsewhere (uploadDone (reached (Pipeline.step exportPhases 1)
        (Pipeline.admits 1) ⟨exportRoot, [], []⟩ exportRun).table)]) (reached _ _ _ _) :=
    path_reached (by decide +kernel)
  obtain ⟨hin, hnext⟩ := pipeline_in_order h0 hp
  refine ⟨_, _, hp, hin, by decide +kernel, rfl, ?_, by decide +kernel⟩
  refine (((hnext _ rfl).2 rfl pipelineEnv exportPlan (fun _ => .ok (some (.int 1))) {} _ rfl).2
    fun ids hids k hk => ?_).2 _ rfl
  obtain rfl : [4] = ids := Option.some.inj hids
  obtain rfl := List.mem_singleton.1 hk
  exact ⟨by decide, _, rfl, rfl, .inl rfl⟩

end GenericTaskQueue
