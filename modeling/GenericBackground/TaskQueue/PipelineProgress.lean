import GenericBackground.TaskQueue.MultiPhase
import Mathlib.Algebra.Order.Floor.Ring
import Mathlib.Data.Rat.Floor

/-!
# The progress of a pipeline

After a child has completed, `_notify_parent_on_child_done` opens a transaction of its own, and
`MultiPhaseTaskType.on_child_done` computes the progress of the waiting root from what it sees
there: the phase, and the share of the wave that is terminal. Its call of `update_progress` comes
later, after other transactions.

The values lie between 0 and 100 in every run. They never decrease as long as no child that a
notification has counted leaves its terminal state, and no notification overtakes another; an
automatic retry of a failed child takes it out of the count again (`progress_decreases`).
-/

namespace GenericTaskQueue

open Query Lts

/-! ## The value -/

def doneInWave (T : Table) (ids : List TaskId) : ℕ :=
  ids.countP fun k => ((T.get k).map Task.state).any (· ∈ terminalStates)

def waveFraction (T : Table) (ids : List TaskId) : ℚ :=
  if ids.length = 0 then 0 else doneInWave T ids / ids.length

/-- The value for a pipeline of `n` phases; nothing is negative, so `int` rounds down. -/
def pipelinePct (n phase : ℕ) (fraction : ℚ) : ℤ := ⌊100 * (phase + fraction) / n⌋

/-- `MultiPhaseTaskType.on_child_done`: the argument of `update_progress`, if that is called. -/
def onChildDone (trackProgress : Bool) (phases : List String) (p : Task) (T : Table) : Option ℤ :=
  if !trackProgress then none
  else if (waveIds p).all fun k => (T.get k).isSome then
    some (pipelinePct (if phases.length = 0 then 1 else phases.length) p.phase
      (waveFraction T (waveIds p)))
  else none

/-- `_notify_parent_on_child_done`, in a transaction that sees the table `T`. -/
def notifyParentOnChildDone (trackProgress : Bool) (phases : List String) (id : TaskId)
    (T : Table) : Option ℤ :=
  match T.get id with
  | none => none
  | some p => if p.state ≠ .waiting then none else onChildDone trackProgress phases p T

/-! ## Runs -/

/-- The pipeline, what the notifications that have begun see, in the order in which they began, and
those of them that have called `update_progress`. -/
structure PipelineProgress where
  pipe : Pipeline
  snaps : List Table
  reported : List ℕ

inductive ProgressEv where
  | pipeline (ev : PipelineEv)
  | notify (child : TaskId)
  | report (i : ℕ)

namespace PipelineProgress

def step (phases : List String) (id : TaskId) (s : PipelineProgress) :
    ProgressEv → Option PipelineProgress
  | .pipeline ev => (s.pipe.step phases id ev).map fun pipe => { s with pipe := pipe }
  | .notify child =>
    if (s.pipe.table.get child).any fun c => c.parentId = some id && c.state = .done then
      some { s with snaps := s.snaps ++ [s.pipe.table] }
    else none
  | .report i =>
    if i < s.snaps.length ∧ i ∉ s.reported then some { s with reported := s.reported ++ [i] }
    else none

def passed (trackProgress : Bool) (phases : List String) (id : TaskId) (s : PipelineProgress) :
    ProgressEv → List ℤ
  | .report i => (s.snaps[i]?.bind (notifyParentOnChildDone trackProgress phases id)).toList
  | _ => []

def admits (id : TaskId) (s : PipelineProgress) : ProgressEv → Prop
  | .pipeline ev => s.pipe.admits id ev
  | _ => True

/-- The root runs, and no notification has begun. -/
structure Start (id : TaskId) (s : PipelineProgress) : Prop where
  root : ∃ p, s.pipe.table.get id = some p ∧ p.state = .running
  snaps : s.snaps = []

end PipelineProgress

def Terminal (T : Table) (k : TaskId) : Prop := ∃ c, T.get k = some c ∧ c.state ∈ terminalStates

instance (T : Table) (k : TaskId) : Decidable (Terminal T k) :=
  decidable_of_iff (((T.get k).any (·.state ∈ terminalStates)) = true) (by
    unfold Terminal
    cases T.get k <;> simp)

/-- The children that a notification counts that sees `T`: those that are terminal, of the wave that
the root waits for. -/
def countedIn (id : TaskId) (T : Table) : List TaskId :=
  match T.get id with
  | none => []
  | some p => if p.state = .waiting then (waveIds p).filter fun k => Terminal T k else []

namespace PipelineProgress

/-- No child that a notification has counted leaves its terminal state, and no notification calls
`update_progress` after one that began later. -/
def Steady (id : TaskId) (s : PipelineProgress) : ProgressEv → Prop
  | .pipeline (.elsewhere T) => ∀ S ∈ s.snaps, ∀ k ∈ countedIn id S,
      Terminal s.pipe.table k → Terminal T k
  | .report i => ∀ j ∈ s.reported, j ≤ i
  | _ => True

instance (id : TaskId) (s : PipelineProgress) (ev : ProgressEv) : Decidable (s.admits id ev) := by
  cases ev <;> unfold admits <;> infer_instance

instance (id : TaskId) (s : PipelineProgress) (ev : ProgressEv) : Decidable (s.Steady id ev) := by
  rcases ev with (_ | _ | _ | _) | _ | _ <;> unfold Steady <;> infer_instance

end PipelineProgress

/-! ## Bounds and order of the values -/

section Values

variable {T T' : Table} {ids : List TaskId} {n i j : ℕ} {f g : ℚ}

theorem counted_iff {k : TaskId} :
    ((T.get k).map Task.state).any (· ∈ terminalStates) = true ↔ Terminal T k := by
  unfold Terminal
  cases T.get k <;> simp

theorem mem_countedIn {id k : TaskId} {p : Task} (hp : T.get id = some p) (hw : p.state = .waiting)
    (hk : k ∈ waveIds p) (ht : Terminal T k) : k ∈ countedIn id T := by
  unfold countedIn
  simp only [hp, hw, if_true]
  exact List.mem_filter.2 ⟨hk, decide_eq_true ht⟩

theorem waveFraction_nonneg : 0 ≤ waveFraction T ids := by
  unfold waveFraction
  split_ifs <;> positivity

theorem waveFraction_le_one : waveFraction T ids ≤ 1 := by
  unfold waveFraction
  split_ifs with h
  · exact zero_le_one
  · have hpos : (0 : ℚ) < ids.length := by exact_mod_cast Nat.pos_of_ne_zero h
    rw [div_le_one hpos]
    exact_mod_cast List.countP_le_length

theorem waveFraction_mono (h : ∀ k ∈ ids, Terminal T k → Terminal T' k) :
    waveFraction T ids ≤ waveFraction T' ids := by
  have hcount : doneInWave T ids ≤ doneInWave T' ids :=
    List.countP_mono_left fun k hk hc => counted_iff.2 (h k hk (counted_iff.1 hc))
  unfold waveFraction
  split_ifs
  · exact le_refl 0
  · gcongr

theorem pipelinePct_nonneg (hf : 0 ≤ f) : 0 ≤ pipelinePct n i f := by
  unfold pipelinePct
  exact Int.floor_nonneg.2 (by positivity)

theorem pipelinePct_le (hi : i < n) (hf : f ≤ 1) : pipelinePct n i f ≤ 100 := by
  have hpos : (0 : ℚ) < n := by exact_mod_cast Nat.zero_lt_of_lt hi
  have hsum : (i : ℚ) + f ≤ n := by
    have : (i : ℚ) + 1 ≤ n := by exact_mod_cast hi
    linarith
  have hval : 100 * ((i : ℚ) + f) / n ≤ 100 := by
    rw [div_le_iff₀ hpos]
    linarith
  have := Int.floor_le_floor hval
  unfold pipelinePct
  exact_mod_cast this

theorem pipelinePct_mono (h : (i : ℚ) + f ≤ j + g) : pipelinePct n i f ≤ pipelinePct n j g := by
  unfold pipelinePct
  apply Int.floor_le_floor
  gcongr

/-- The slices of the phases do not overlap. -/
theorem pipelinePct_le_of_lt (h : i < j) (hf : f ≤ 1) (hg : 0 ≤ g) :
    pipelinePct n i f ≤ pipelinePct n j g := by
  apply pipelinePct_mono
  have : (i : ℚ) + 1 ≤ j := by exact_mod_cast h
  linarith

end Values

/-! ## What a step does to the root -/

/-- A step leaves the root where it is, and the children of `C` terminal that were; or it makes the
root wait for a new wave, of a later phase if it waited before; or else the root neither runs nor
waits any more. -/
inductive Turn (n : ℕ) (C : TaskId → Prop) (T T' : Table) (p p' : Task) : Prop
  | same (state : p'.state = p.state) (phase : p'.phase = p.phase) (wave : waveIds p' = waveIds p)
      (kept : ∀ k, C k → Terminal T k → Terminal T' k)
  | next (before : p.state = .running ∨ p.state = .waiting ∧ p.phase < p'.phase)
      (waiting : p'.state = .waiting) (bound : p'.phase < n)
  | out (h : p'.state ≠ .running ∧ p'.state ≠ .waiting)

def Turns (n : ℕ) (C : TaskId → Prop) (id : TaskId) (T T' : Table) (p : Task) : Prop :=
  ∃ p', T'.get id = some p' ∧ Turn n C T T' p p'

section Driver

variable {E : Env} {phases : List String} {plan : PlanPhase} {id : TaskId} {n i : ℕ}
  {prev : Option (List ChildResult)} {aggregate : List ChildResult → Except Exc (Option Json)}
  {onFailure : HookRun} {s s' : Pipeline} {T T' : Table} {p p' : Task} {C : TaskId → Prop}
  {calls : List PlanCall} {vals : List (String × Json)}

theorem Driven.turn (h : Driven phases id i prev T T' p p' calls)
    (hi : p.state = .running ∨ p.state = .waiting ∧ p.phase < i) :
    Turn phases.length C T T' p p' := by
  rcases h.outcome with ⟨l, c, hl, -, -, -, hw, -, hph⟩ | ⟨-, -, -, hd⟩
  · -- the new wave is of a phase from `i` on
    have hmem : c.index ∈ List.range' i calls.length := by
      rw [← h.indices, hl]
      exact List.mem_map_of_mem (List.mem_append_right _ List.mem_cons_self)
    have hb := h.bound
    rw [List.mem_range'_1] at hmem
    refine .next (hi.imp_right fun ⟨hw, hlt⟩ => ⟨hw, ?_⟩) hw ?_ <;> omega
  · exact .out (by rw [hd]; decide)

theorem Turns.of_eq (hp : s.table.get id = some p) (h : s' = s) :
    Turns n C id s.table s'.table p := by
  subst h
  exact ⟨p, hp, .same rfl rfl rfl fun _ _ h => h⟩

theorem execute_turn (hp : s.table.get id = some p)
    (h : s.step phases id (.execute E plan) = some s') :
    Turns phases.length C id s.table s'.table p := by
  have hr : p.state = .running := by
    by_contra hr
    simp [Pipeline.step, hp, hr] at h
  simp only [Pipeline.step, hp, Option.map_some, hr, if_true] at h
  split at h
  · next T calls hx =>
    obtain ⟨p', hp', hd⟩ := executeRoot_driven hp hr hx
    obtain rfl := Option.some.inj h
    exact ⟨p', hp', hd.turn (.inl hr)⟩
  · exact .of_eq hp (Option.some.inj h).symm

theorem check_finished_turn (hp : s.table.get id = some p) (hw : p.state = .waiting)
    (hph : p.phase < phases.length) (hne : s.table.children id ≠ [])
    (hfin : ∀ c ∈ s.table.children id, Finished c)
    (h : s.step phases id (.check E plan aggregate onFailure) = some s') :
    Turns phases.length C id s.table s'.table p := by
  obtain ⟨hm, rfl⟩ := Table.get_eq_some_iff.1 hp
  cases hook : onAllChildrenDone E phases plan aggregate p s.table with
  | error exc =>
    rcases Pipeline.check_raises hp hw hne hfin hook h with hs | ⟨-, T, p', rfl, -, hp', hf⟩
    · exact .of_eq hp hs
    · exact ⟨p', hp', .out (by rw [hf]; decide)⟩
  | ok r =>
    -- a waiting root is no finished child of its own
    have hpar : p.parentId ≠ some p.id := by
      intro hpar
      exact (hfin p (Table.mem_children.2 ⟨hm, hpar⟩)).not_active (by rw [hw]; decide)
    obtain ⟨T, p', hcheck, hp', hd⟩ := completeParentWith_driven ⟨fun _ => {}, fun _ => onFailure⟩
      hp hw hpar hph hfin hook
    simp only [Pipeline.step, checkWaitingParentWith_finished hp hw hne hfin, hcheck] at h
    obtain rfl := Option.some.inj h
    exact ⟨p', hp', hd.turn (.inr ⟨hw, Nat.lt_succ_self _⟩)⟩

theorem check_turn (hp : s.table.get id = some p)
    (hph : p.state = .waiting → p.phase < phases.length)
    (h : s.step phases id (.check E plan aggregate onFailure) = some s') :
    Turns phases.length C id s.table s'.table p := by
  by_cases hw : p.state = .waiting
  swap
  · exact .of_eq hp (Pipeline.check_idle hp hw h)
  by_cases hact : ∃ c ∈ s.table.children id, c.state ∈ activeStates
  · exact .of_eq hp (Pipeline.check_active hp hw hact h)
  have hc : ∀ c ∈ s.table.children id, c.state ∉ activeStates := fun c hcm hs => hact ⟨c, hcm, hs⟩
  obtain ⟨-, rfl⟩ := Table.get_eq_some_iff.1 hp
  by_cases hnil : s.table.children p.id = []
  · simp only [Pipeline.step, checkWaitingParentWith_no_children hp hw hnil] at h
    obtain rfl := Option.some.inj h
    exact ⟨_, Table.get_update_self hp, .out (by simp)⟩
  by_cases hf : ∃ c ∈ s.table.children p.id, c.state = .failed
  · simp only [Pipeline.step] at h
    split at h
    · next T x calls hr => exact absurd (checkWaitingParentWith_failed hp hw hc hf hr).1 (by simp)
    · next T x hr =>
      obtain ⟨-, rfl | ⟨-, p', hp', hs⟩⟩ := checkWaitingParentWith_failed hp hw hc hf hr
      · exact .of_eq hp (Option.some.inj h).symm
      · obtain rfl := Option.some.inj h
        exact ⟨p', hp', .out (by rw [hs]; decide)⟩
    · exact .of_eq hp (Option.some.inj h).symm
  · have hfin : ∀ c ∈ s.table.children p.id, Finished c := fun c hcm =>
      .of_not (hc c hcm) fun hs => hf ⟨c, hcm, hs⟩
    exact check_finished_turn hp hw (hph hw) hnil hfin h

theorem store_turn (hp : s.table.get id = some p) (hvals : "child_ids" ∉ vals.map Prod.fst)
    (h : s.step phases id (.store vals) = some s') : Turns n C id s.table s'.table p := by
  obtain ⟨-, rfl⟩ := Table.get_eq_some_iff.1 hp
  obtain rfl := Option.some.inj h
  have hp' := Table.get_update_self (f := storePhaseData vals) hp
  refine ⟨_, hp', .same rfl rfl (waveIds_store hvals) fun k _ ⟨c, hc, ht⟩ => ?_⟩
  by_cases hk : k = p.id
  · subst hk
    obtain rfl := Option.some.inj (hp.symm.trans hc)
    exact ⟨_, hp', ht⟩
  · exact ⟨c, (Table.get_update_of_ne hk).trans hc, ht⟩

theorem elsewhere_turn (hp : s.table.get id = some p) (hok : Elsewhere id s.table T)
    (hC : ∀ k, C k → Terminal s.table k → Terminal T k)
    (h : s.step phases id (.elsewhere T) = some s') : Turns n C id s.table s'.table p := by
  obtain rfl := Option.some.inj h
  obtain ⟨⟨q, hm, p', hm', hid, hid', hstate, hph, hdata⟩, -⟩ := hok
  obtain rfl := Option.some.inj (hp.symm.trans (Table.get_eq_some_iff.2 ⟨hm, hid⟩))
  refine ⟨p', Table.get_eq_some_iff.2 ⟨hm', hid'⟩, ?_⟩
  rcases hstate with hstate | hstate
  · exact .same hstate hph (by unfold waveIds; rw [hdata]) hC
  · exact .out ⟨fun hr => hstate (by rw [hr]; decide), fun hw => hstate (by rw [hw]; decide)⟩

/-- **Turns.** What a step of the pipeline does to the root. -/
theorem pipeline_turn {ev : PipelineEv} (hp : s.table.get id = some p)
    (hph : p.state = .waiting → p.phase < phases.length) (hok : s.admits id ev)
    (hC : ∀ T', ev = .elsewhere T' → ∀ k, C k → Terminal s.table k → Terminal T' k)
    (h : s.step phases id ev = some s') : Turns phases.length C id s.table s'.table p := by
  cases ev with
  | execute E plan => exact execute_turn hp h
  | check E plan aggregate onFailure => exact check_turn hp hph h
  | store vals => exact store_turn hp hok h
  | elsewhere T' => exact elsewhere_turn hp hok (hC T' rfl) h

end Driver

/-! ## The invariant -/

/-- If the root waits in both tables, the later one sees a later phase, or more of the same wave. -/
def SeesMore (id : TaskId) (S T : Table) : Prop :=
  ∀ p, S.get id = some p → p.state = .waiting → ∃ q, T.get id = some q ∧ q.state ≠ .running ∧
    (q.state = .waiting → p.phase < q.phase ∨ p.phase = q.phase ∧ waveIds q = waveIds p ∧
      ∀ k ∈ waveIds p, Terminal S k → Terminal T k)

def InPhase (n : ℕ) (id : TaskId) (T : Table) : Prop :=
  ∀ p, T.get id = some p → p.state = .waiting → p.phase < n

section Invariant

variable {phases : List String} {n : ℕ} {C : TaskId → Prop} {id : TaskId} {S T T' : Table}
  {p : Task}

theorem SeesMore.refl : SeesMore id T T :=
  fun p hp hw => ⟨p, hp, by rw [hw]; decide, fun _ => .inr ⟨rfl, rfl, fun _ _ h => h⟩⟩

/-- **Step lemma.** A step of the pipeline after the snapshot. -/
theorem SeesMore.turns (h : SeesMore id S T) (hp : T.get id = some p)
    (ht : Turns n (· ∈ countedIn id S) id T T' p) : SeesMore id S T' := by
  intro q hq hw
  obtain ⟨r, hr, hnr, hmore⟩ := h q hq hw
  obtain rfl := Option.some.inj (hp.symm.trans hr)
  obtain ⟨p', hp', hturn⟩ := ht
  refine ⟨p', hp', ?_⟩
  cases hturn with
  | same state phase wave kept =>
    refine ⟨by rw [state]; exact hnr, fun hw' => ?_⟩
    rw [phase, wave]
    refine (hmore (state ▸ hw')).imp_right fun ⟨hph, hids, hterm⟩ => ⟨hph, hids, fun k hk hS => ?_⟩
    exact kept k (mem_countedIn hq hw hk hS) (hterm k hk hS)
  | next before waiting bound =>
    refine ⟨by rw [waiting]; decide, fun _ => .inl ?_⟩
    rcases before with hrun | ⟨hwait, hlt⟩
    · exact absurd hrun hnr
    · rcases hmore hwait with h | ⟨h, -⟩ <;> omega
  | out hout => exact ⟨hout.1, fun hw' => absurd hw' hout.2⟩

theorem InPhase.turns (h : InPhase n id T) (hp : T.get id = some p) (ht : Turns n C id T T' p) :
    InPhase n id T' := by
  obtain ⟨p', hp', hturn⟩ := ht
  intro q hq hw
  obtain rfl := Option.some.inj (hp'.symm.trans hq)
  cases hturn with
  | same state phase wave kept =>
    rw [phase]
    exact h p hp (state ▸ hw)
  | next before waiting bound => exact bound
  | out hout => exact absurd hw hout.2

theorem notifyParentOnChildDone_some {track : Bool} {v : ℤ} (hT : InPhase phases.length id T)
    (h : notifyParentOnChildDone track phases id T = some v) : ∃ p, T.get id = some p ∧
      p.state = .waiting ∧ p.phase < phases.length ∧
      v = pipelinePct phases.length p.phase (waveFraction T (waveIds p)) := by
  unfold notifyParentOnChildDone at h
  cases hp : T.get id with
  | none => rw [hp] at h; cases h
  | some p =>
    simp only [hp] at h
    split_ifs at h with hw
    have hw := not_not.1 hw
    have hlt := hT p hp hw
    unfold onChildDone at h
    split_ifs at h with htrack hwave hlen
    · omega
    · exact ⟨p, rfl, hw, hlt, (Option.some.inj h).symm⟩

theorem notifyParentOnChildDone_range {track : Bool} {v : ℤ} (hT : InPhase phases.length id T)
    (h : notifyParentOnChildDone track phases id T = some v) : 0 ≤ v ∧ v ≤ 100 := by
  obtain ⟨p, -, -, hlt, rfl⟩ := notifyParentOnChildDone_some hT h
  exact ⟨pipelinePct_nonneg waveFraction_nonneg, pipelinePct_le hlt waveFraction_le_one⟩

theorem SeesMore.value_le {track : Bool} {u v : ℤ} (h : SeesMore id S T)
    (hS : InPhase phases.length id S) (hT : InPhase phases.length id T)
    (hu : notifyParentOnChildDone track phases id S = some u)
    (hv : notifyParentOnChildDone track phases id T = some v) : u ≤ v := by
  obtain ⟨p, hp, hw, -, rfl⟩ := notifyParentOnChildDone_some hS hu
  obtain ⟨q, hq, hwq, -, rfl⟩ := notifyParentOnChildDone_some hT hv
  obtain ⟨r, hr, -, hmore⟩ := h p hp hw
  obtain rfl := Option.some.inj (hq.symm.trans hr)
  rcases hmore hwq with hlt | ⟨hph, hids, hterm⟩
  · exact pipelinePct_le_of_lt hlt waveFraction_le_one waveFraction_nonneg
  · rw [hph, hids]
    exact pipelinePct_mono (add_le_add_right (waveFraction_mono hterm) _)

end Invariant

namespace PipelineProgress

variable {phases : List String} {track : Bool} {id : TaskId} {s s' : PipelineProgress} {l : List ℤ}
  {ev : ProgressEv}

/-- What has been passed, in range. -/
structure Ranged (phases : List String) (id : TaskId) (l : List ℤ) (s : PipelineProgress) :
    Prop where
  root : ∃ p, s.pipe.table.get id = some p
  now : InPhase phases.length id s.pipe.table
  seen : ∀ S ∈ s.snaps, InPhase phases.length id S
  values : ∀ v ∈ l, 0 ≤ v ∧ v ≤ 100

/-- What has been passed, in order: each value is that of a notification that has reported. -/
structure Sorted (track : Bool) (phases : List String) (id : TaskId) (l : List ℤ)
    (s : PipelineProgress) : Prop where
  now : ∀ S ∈ s.snaps, SeesMore id S s.pipe.table
  seen : s.snaps.Pairwise (SeesMore id)
  source : ∀ v ∈ l, ∃ j ∈ s.reported, ∃ S, s.snaps[j]? = some S ∧
    notifyParentOnChildDone track phases id S = some v
  values : l.Pairwise (· ≤ ·)

theorem Ranged.step (h : s.Ranged phases id l) (hok : s.admits id ev)
    (hs : s.step phases id ev = some s') :
    s'.Ranged phases id (l ++ s.passed track phases id ev) := by
  cases ev with
  | pipeline ev =>
    obtain ⟨pipe, hpipe, rfl⟩ := Option.map_eq_some_iff.1 hs
    obtain ⟨p, hp⟩ := h.root
    have ht : Turns phases.length (fun _ => False) id s.pipe.table pipe.table p :=
      pipeline_turn hp (h.now p hp) hok (fun _ _ _ hk => hk.elim) hpipe
    have hroot : ∃ p', pipe.table.get id = some p' := ht.imp fun _ h => h.1
    exact ⟨hroot, h.now.turns hp ht, h.seen, by simpa [passed] using h.values⟩
  | notify child =>
    simp only [step] at hs
    split_ifs at hs
    obtain rfl := Option.some.inj hs
    refine ⟨h.root, h.now, ?_, by simpa [passed] using h.values⟩
    exact List.forall_mem_append.2 ⟨h.seen, List.forall_mem_singleton.2 h.now⟩
  | report i =>
    simp only [step] at hs
    split_ifs at hs
    obtain rfl := Option.some.inj hs
    refine ⟨h.root, h.now, h.seen, List.forall_mem_append.2 ⟨h.values, fun v hv => ?_⟩⟩
    obtain ⟨S, hS, hv⟩ := Option.bind_eq_some_iff.1 (Option.mem_toList.1 hv)
    exact notifyParentOnChildDone_range (h.seen S (List.mem_of_getElem? hS)) hv

theorem Sorted.step (h : s.Sorted track phases id l) (hr : s.Ranged phases id l)
    (hok : s.admits id ev) (hst : s.Steady id ev) (hs : s.step phases id ev = some s') :
    s'.Sorted track phases id (l ++ s.passed track phases id ev) := by
  cases ev with
  | pipeline ev =>
    obtain ⟨pipe, hpipe, rfl⟩ := Option.map_eq_some_iff.1 hs
    obtain ⟨p, hp⟩ := hr.root
    refine ⟨fun S hS => ?_, h.seen, by simpa [passed] using h.source,
      by simpa [passed] using h.values⟩
    refine (h.now S hS).turns hp (pipeline_turn hp (hr.now p hp) hok ?_ hpipe)
    rintro T rfl k hk
    exact hst S hS k hk
  | notify child =>
    simp only [step] at hs
    split_ifs at hs
    obtain rfl := Option.some.inj hs
    refine ⟨?_, ?_, fun v hv => ?_, by simpa [passed] using h.values⟩
    · exact List.forall_mem_append.2 ⟨h.now, List.forall_mem_singleton.2 .refl⟩
    · refine List.pairwise_append.2 ⟨h.seen, List.pairwise_singleton _ _, fun S hS T hT => ?_⟩
      obtain rfl := List.mem_singleton.1 hT
      exact h.now S hS
    · obtain ⟨j, hj, S, hS, hv⟩ := h.source v (by simpa [passed] using hv)
      have hlt := (List.getElem?_eq_some_iff.1 hS).1
      exact ⟨j, hj, S, (List.getElem?_append_left hlt).trans hS, hv⟩
  | report i =>
    simp only [step] at hs
    split_ifs at hs with hi
    obtain rfl := Option.some.inj hs
    have hnew : ∀ v ∈ s.passed track phases id (.report i), ∃ S, s.snaps[i]? = some S ∧
        notifyParentOnChildDone track phases id S = some v := fun v hv =>
      Option.bind_eq_some_iff.1 (Option.mem_toList.1 hv)
    refine ⟨h.now, h.seen, List.forall_mem_append.2 ⟨fun v hv => ?_, fun v hv => ?_⟩, ?_⟩
    · obtain ⟨j, hj, hv⟩ := h.source v hv
      exact ⟨j, List.mem_append_left _ hj, hv⟩
    · exact ⟨i, List.mem_append_right _ List.mem_cons_self, hnew v hv⟩
    · refine List.pairwise_append.2 ⟨h.values, ?_, fun u hu v hv => ?_⟩
      · show (Option.toList _).Pairwise _
        cases s.snaps[i]?.bind (notifyParentOnChildDone track phases id) with
        | none => exact .nil
        | some v => exact List.pairwise_singleton _ v
      · obtain ⟨j, hj, S, hS, hu⟩ := h.source u hu
        obtain ⟨T, hT, hv⟩ := hnew v hv
        have hle : j < i := Nat.lt_of_le_of_ne (hst j hj) fun hji => hi.2 (hji ▸ hj)
        have hsees : SeesMore id S T := by
          obtain ⟨hj, rfl⟩ := List.getElem?_eq_some_iff.1 hS
          obtain ⟨hi, rfl⟩ := List.getElem?_eq_some_iff.1 hT
          exact List.pairwise_iff_getElem.1 h.seen j i hj hi hle
        exact hsees.value_le (hr.seen S (List.mem_of_getElem? hS))
          (hr.seen T (List.mem_of_getElem? hT)) hu hv

end PipelineProgress

/-- **Progress.** What the notifications of an attempt pass to `update_progress` lies between 0 and
100, and never decreases in a run whose steps are steady. -/
theorem pipeline_progress {track : Bool} {phases : List String} {id : TaskId}
    {s₀ s : PipelineProgress} {es : List ProgressEv} (h0 : s₀.Start id)
    (hp : Path (PipelineProgress.step phases id) (PipelineProgress.admits id) s₀ es s) :
    (∀ v ∈ emitted (PipelineProgress.step phases id) (PipelineProgress.passed track phases id) s₀
      es, 0 ≤ v ∧ v ≤ 100) ∧
    (Path (PipelineProgress.step phases id) (PipelineProgress.Steady id) s₀ es s →
      (emitted (PipelineProgress.step phases id) (PipelineProgress.passed track phases id) s₀
        es).Pairwise (· ≤ ·)) := by
  obtain ⟨⟨p, hroot, hr⟩, hsnaps⟩ := h0
  have h0 : s₀.Ranged phases id [] := by
    refine ⟨⟨p, hroot⟩, fun q hq hw => ?_, by rw [hsnaps]; exact nofun, nofun⟩
    obtain rfl := Option.some.inj (hroot.symm.trans hq)
    rw [hr] at hw
    cases hw
  refine ⟨?_, fun hst => ?_⟩
  · have h := hp.inv_emitted (f := PipelineProgress.passed track phases id)
      (I := fun l s => s.Ranged phases id l) (fun l s e s' h hok hs => h.step hok hs) h0
    exact h.values
  · have h1 : s₀.Sorted track phases id [] := by
      refine ⟨?_, ?_, nofun, .nil⟩
      · rw [hsnaps]; exact nofun
      · rw [hsnaps]; exact .nil
    have h := (hp.and hst).inv_emitted
      (I := fun l s => s.Ranged phases id l ∧ s.Sorted track phases id l)
      (fun l s e s' h hok hs => ⟨h.1.step hok.1 hs, h.2.step h.1 hok.1 hok.2 hs⟩) ⟨h0, h1⟩
    exact h.2.values

/-- The root runs, and nothing has been notified. -/
def exportProgress : PipelineProgress := ⟨⟨exportRoot, [], []⟩, [], []⟩

/-- What happens elsewhere, after these events, is `f`. -/
def elsewhereAfter (phases : List String) (es : List ProgressEv) (f : Table → Table) :
    ProgressEv :=
  .pipeline (.elsewhere (f (reached (PipelineProgress.step phases 1) (PipelineProgress.admits 1)
    exportProgress es).pipe.table))

/-- Of the two children of the first wave, one is done and notifies; then its sibling is
cancelled. -/
def exportTicks : List ProgressEv :=
  let es := [.pipeline (.execute pipelineEnv exportPlan)]
  let es := es ++ [elsewhereAfter exportPhases es fun T => T.update 2 fun c =>
    { c with state := .done }, .notify 2, .report 0]
  let es := es ++ [elsewhereAfter exportPhases es fun T => T.update 3 fun c =>
    { c with state := .cancelled },
    .pipeline (.check pipelineEnv exportPlan (fun _ => .ok none) {})]
  es ++ [elsewhereAfter exportPhases es fun T => T.update 4 fun c => { c with state := .done },
    .notify 4, .report 1]

theorem exportTicks_progress : ∃ s, Path (PipelineProgress.step exportPhases 1)
      (PipelineProgress.admits 1) exportProgress exportTicks s ∧
    emitted (PipelineProgress.step exportPhases 1) (PipelineProgress.passed true exportPhases 1)
      exportProgress exportTicks = [16, 100] ∧
    (emitted (PipelineProgress.step exportPhases 1) (PipelineProgress.passed true exportPhases 1)
      exportProgress exportTicks).Pairwise (· ≤ ·) := by
  have h0 : exportProgress.Start 1 := ⟨⟨_, rfl, rfl⟩, rfl⟩
  have hp : Path (PipelineProgress.step exportPhases 1) (PipelineProgress.admits 1) exportProgress
      exportTicks (reached _ _ _ _) := path_reached (by decide +kernel)
  have hst : Path (PipelineProgress.step exportPhases 1) (PipelineProgress.Steady 1) exportProgress
      exportTicks (reached _ _ _ _) := path_reached (by decide +kernel)
  refine ⟨_, hp, by decide +kernel, (pipeline_progress h0 hp).2 ?_⟩
  rwa [← (hst.imp fun _ _ _ => trivial).unique (hp.imp fun _ _ _ => trivial)]

/-- One phase with a wave of four tasks that are retried after any failure. -/
def importPlan : PlanPhase := fun _ _ _ =>
  { result := .ok (.specs (List.replicate 4
      { typeCode := "leaf", retryPolicy := some (.canonical .retryAny), maxRetries := some 1 })) }

/-- Two children have failed and one is done, which notifies. The failed ones are retried, the last
one is done, and notifies. -/
def importTicks : List ProgressEv :=
  let es := [.pipeline (.execute pipelineEnv importPlan)]
  let es := es ++ [elsewhereAfter ["import"] es fun T =>
    ((T.update 2 fun c => { c with state := .failed }).update 3 fun c =>
      { c with state := .failed }).update 4 fun c => { c with state := .done },
    .notify 4, .report 0]
  es ++ [elsewhereAfter ["import"] es fun T =>
    ((T.update 2 (actionAutoRetry none)).update 3 (actionAutoRetry none)).update 5 fun c =>
      { c with state := .done },
    .notify 5, .report 1]

/-- The retry takes the failed children out of the count. -/
theorem progress_decreases : ¬ ∀ track phases id s₀ es s, PipelineProgress.Start id s₀ →
    Path (PipelineProgress.step phases id) (PipelineProgress.admits id) s₀ es s →
    (emitted (PipelineProgress.step phases id) (PipelineProgress.passed track phases id) s₀
      es).Pairwise (· ≤ ·) ∧
    ∀ v ∈ emitted (PipelineProgress.step phases id) (PipelineProgress.passed track phases id) s₀
      es, 0 ≤ v ∧ v ≤ 100 := by
  intro h
  have h0 : exportProgress.Start 1 := ⟨⟨_, rfl, rfl⟩, rfl⟩
  have hp : Path (PipelineProgress.step ["import"] 1) (PipelineProgress.admits 1) exportProgress
      importTicks (reached _ _ _ _) := path_reached (by decide +kernel)
  have hsorted := (h true ["import"] 1 _ _ _ h0 hp).1
  have hvals : emitted (PipelineProgress.step ["import"] 1) (PipelineProgress.passed true ["import"]
      1) exportProgress importTicks = [75, 50] := by decide +kernel
  rw [hvals] at hsorted
  revert hsorted
  decide

end GenericTaskQueue
