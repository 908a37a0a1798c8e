import GenericBackground.TaskQueue.Claim
import GenericBackground.TaskQueue.Waiting

/-!
# One more attempt of a failed parent

A failed parent is put back to pending, by hand or by the poll of failed tasks, claimed and
started; its `execute` spawns a wave and waits; the children run; `_check_waiting_parent` decides.
`child_ids` still holds the children of the attempts before (`retried_parent_done_iff`).
-/

namespace GenericTaskQueue

open Query

/-- How a failed task is put back. -/
inductive RetryKind where
  | manual (eta : Option ℕ)
  | automatic
  deriving DecidableEq, Repr

/-- What `_auto_retry_failed` asks of a task, besides its channel and type. -/
def autoRetryable (t : Task) : Bool :=
  t.state = .failed && t.retryPolicy = .retryAny && t.retryCount < t.maxRetries

theorem autoRetryable_failed {t : Task} (h : autoRetryable t = true) : t.state = .failed := by
  unfold autoRetryable at h
  simp only [Bool.and_eq_true, decide_eq_true_eq] at h
  exact h.1.1

/-- `action_retry`, or the automatic retry of a task that is selected for it. -/
def putBack (E : Env) (kind : RetryKind) (t : Task) : Except TaskError Task :=
  match kind with
  | .manual eta => actionRetry eta t
  | .automatic => .ok (if autoRetryable t then
      actionAutoRetry (retryEta E.reg E.now t.typeCode t.retryCount) t else t)

/-- The next attempt of task `id`, up to `action_wait_children`. -/
def reattempt (E : Env) (kind : RetryKind) (worker : WorkerId) (runner : RunnerId)
    (specs : List TaskSpec) (id : TaskId) (T : Table) : Except TaskError Table := do
  let T ← T.modify id (putBack E kind)
  let T ← T.modify id (claimRow worker runner)
  let T ← T.modify id (actionStart E.now)
  match T.get id with
  | none => return T
  | some p =>
    let T ← createChildren E p specs T
    T.modify id actionWaitChildren

/-- What happens to the table while task `id` waits: other rows change, rows are added, and the
progress of `id` is written. -/
inductive OthersRun (id : TaskId) (T : Table) : Table → Prop
  | refl : OthersRun id T T
  | update {T' : Table} (k : TaskId) (f : Task → Task) (hk : k ≠ id)
      (hf : ∀ t, (f t).parentId = t.parentId) (h : OthersRun id T T') :
      OthersRun id T (T'.update k f)
  | insert {T' : Table} (new : List Task) (h : OthersRun id T T') : OthersRun id T (T'.insert new)
  | progress {T' : Table} (value : ℤ) (h : OthersRun id T T') :
      OthersRun id T (T'.update id (setProgress value))

/-! ## The attempt -/

/-- The parent waits, and its type is that of the task put back. -/
def WaitsAs (code : TypeCode) (id : TaskId) (T : Table) : Prop :=
  ∃ p, T.get id = some p ∧ p.state = .waiting ∧ p.typeCode = code

theorem modify_some {T T' : Table} {id : TaskId} {f : Task → Except TaskError Task} {t : Task}
    (ht : T.get id = some t) (h : T.modify id f = .ok T') :
    ∃ t', f t = .ok t' ∧ T'.get id = some { t' with id := id } ∧
      ∀ u ∈ T.rows, u.id ≠ id → u ∈ T'.rows := by
  obtain ⟨t', hf, rfl⟩ := Table.modify_ok ht h
  exact ⟨t', hf, Table.get_update_self ht, fun u hu hid =>
    (Table.mem_updateAll_of_not_mem (by simpa using hid)).2 hu⟩

theorem putBack_type {E : Env} {kind : RetryKind} {t t' : Task} (h : putBack E kind t = .ok t') :
    t'.typeCode = t.typeCode := by
  cases kind with
  | manual eta =>
    change actionRetry eta t = .ok t' at h
    obtain ⟨-, rfl⟩ := actionRetry_ok h
    rfl
  | automatic =>
    unfold putBack at h
    have h := Except.ok.inj h
    split_ifs at h
    · rw [← h]; rfl
    · rw [h]

theorem reattempt_spec {E : Env} {kind : RetryKind} {worker : WorkerId} {runner : RunnerId}
    {specs : List TaskSpec} {id : TaskId} {T T' : Table} {p : Task} (hp : T.get id = some p)
    (h : reattempt E kind worker runner specs id T = .ok T') :
    WaitsAs p.typeCode id T' ∧ (specs ≠ [] → ∃ c ∈ T'.rows, c.parentId = some id) := by
  unfold reattempt at h
  obtain ⟨T₁, h1, h⟩ := bind_ok h
  obtain ⟨t₁, hf1, hg1, -⟩ := modify_some hp h1
  obtain ⟨T₂, h2, h⟩ := bind_ok h
  obtain ⟨t₂, hf2, hg2, -⟩ := modify_some hg1 h2
  obtain ⟨T₃, h3, h⟩ := bind_ok h
  obtain ⟨t₃, hf3, hg3, -⟩ := modify_some hg2 h3
  rw [hg3] at h
  obtain ⟨T₄, h4, h5⟩ := bind_ok h
  have hm3 := (Table.get_eq_some_iff.1 hg3).1
  have hg4 := Table.get_eq_some_iff.2 ⟨createChildren_old h4 hm3, rfl⟩
  obtain ⟨t₅, hf5, hg5, hkeep⟩ := modify_some hg4 h5
  -- the type is carried through every action
  have e1 : t₁.typeCode = p.typeCode := putBack_type hf1
  obtain ⟨-, rfl⟩ := claimRow_eq hf2
  obtain ⟨-, rfl⟩ := checked_ok hf3
  obtain ⟨-, rfl⟩ := checked_ok hf5
  refine ⟨⟨_, hg5, rfl, e1⟩, fun hne => ?_⟩
  obtain ⟨spec, specs, rfl⟩ := List.exists_cons_of_ne_nil hne
  obtain ⟨c, hc, hle, hpar, -⟩ := createChildren_cons h4
  refine ⟨c, hkeep c hc fun hid => ?_, hpar⟩
  have hlt : id < T₃.nextId := Table.lt_nextId hm3
  rw [hid] at hle
  exact absurd hlt (Nat.not_lt_of_le hle)

/-! ## While the parent waits -/

theorem OthersRun.waits {id : TaskId} {T T' : Table} {code : TypeCode} (h : OthersRun id T T')
    (hw : WaitsAs code id T) : WaitsAs code id T' := by
  induction h with
  | refl => exact hw
  | update k f hk hf _ ih =>
    obtain ⟨p, hp, h⟩ := ih
    exact ⟨p, by rw [Table.get_update_of_ne (Ne.symm hk)]; exact hp, h⟩
  | insert new _ ih =>
    obtain ⟨p, hp, h⟩ := ih
    exact ⟨p, Table.get_insert hp, h⟩
  | progress value _ ih =>
    obtain ⟨p, hp, h1, h2⟩ := ih
    exact ⟨_, Table.get_update_self hp, h1, h2⟩

theorem OthersRun.has_child {id : TaskId} {T T' : Table} (h : OthersRun id T T')
    (hc : ∃ c ∈ T.rows, c.parentId = some id) : ∃ c ∈ T'.rows, c.parentId = some id := by
  have upd : ∀ {T : Table} (k : TaskId) (f : Task → Task), (∀ t, (f t).parentId = t.parentId) →
      (∃ c ∈ T.rows, c.parentId = some id) → ∃ c ∈ (T.update k f).rows, c.parentId = some id := by
    rintro T k f hf ⟨c, hc, hpar⟩
    refine ⟨_, List.mem_map.2 ⟨c, hc, rfl⟩, ?_⟩
    split_ifs
    · exact (hf c).trans hpar
    · exact hpar
  induction h with
  | refl => exact hc
  | update k f hk hf _ ih => exact upd k f hf ih
  | insert new _ ih =>
    obtain ⟨c, hc, hpar⟩ := ih
    exact ⟨c, Table.mem_insert.2 (.inl hc), hpar⟩
  | progress value _ ih => exact upd id _ (fun _ => rfl) ih

/-! ## The decision -/

def DoneWith (v : Option Json) (id : TaskId) (r : Except Exc (Table × List HookCall)) : Prop :=
  ∃ T calls p, r = .ok (T, calls) ∧ T.get id = some p ∧ p.state = .done ∧ p.taskResult = v

/-- **Retried parents.** A failed parent is attempted once more with a new wave, every child of the
wave reaches `done`, and the hook returns `v`: the check completes the parent exactly when every
child left over from earlier attempts is done or cancelled. -/
theorem retried_parent_done_iff {E E' : Env} {kind : RetryKind} {worker : WorkerId}
    {runner : RunnerId} {specs : List TaskSpec} {id : TaskId} {T₀ T₁ T : Table} {p : Task}
    {hooks : Hooks} {v : Option Json} (hp : T₀.get id = some p)
    (hattempt : reattempt E kind worker runner specs id T₀ = .ok T₁) (hspecs : specs ≠ [])
    (hrun : OthersRun id T₁ T)
    (hnew : ∀ c ∈ T.children id, T₀.get c.id = none → c.state = .done)
    (hreg : (E'.reg.lookup p.typeCode).isSome)
    (hhook : hooks.onAllChildrenDone id = { outcome := .ok v }) :
    DoneWith v id (checkWaitingParent E' hooks id T) ↔
      ∀ c ∈ T.children id, T₀.get c.id ≠ none → c.state = .done ∨ c.state = .cancelled := by
  obtain ⟨hwaits, hchild⟩ := reattempt_spec hp hattempt
  obtain ⟨q, hq, hw, hcode⟩ := hrun.waits hwaits
  obtain ⟨hm, rfl⟩ := Table.get_eq_some_iff.1 hq
  have hne : T.children q.id ≠ [] := by
    obtain ⟨c, hc, hpar⟩ := hrun.has_child (hchild hspecs)
    exact List.ne_nil_of_mem (Table.mem_children.2 ⟨hc, hpar⟩)
  constructor
  · rintro ⟨T', calls, p', hcheck, hp', hdone, -⟩ c hcm -
    have hnot : (T'.get q.id).map Task.state ≠ some .waiting := by
      rw [hp', Option.map_some, hdone]
      decide
    have hc : ∀ c ∈ T.children q.id, c.state ∉ activeStates := by
      -- a child that is still active keeps the parent waiting
      intro c hcm ha
      rw [checkWaitingParent_active hq hw ⟨c, hcm, ha⟩] at hcheck
      obtain ⟨rfl, -⟩ := Prod.mk.inj (Except.ok.inj hcheck)
      rw [hq, Option.map_some, hw] at hnot
      exact hnot rfl
    have hfailed : c.state ≠ .failed := by
      intro hfailed
      have := checkWaitingParent_failed_child hq hw hc hcm hfailed hcheck
      rw [hp', Option.map_some, hdone] at this
      revert this
      decide
    have hactive := hc c hcm
    revert hactive hfailed
    cases c.state <;> decide
  · intro hleft
    have hres : ∀ c ∈ T.children q.id, c.state = .done ∨ c.state = .cancelled := by
      intro c hcm
      by_cases h0 : T₀.get c.id = none
      · exact .inl (hnew c hcm h0)
      · exact hleft c hcm h0
    have hc : ∀ c ∈ T.children q.id, c.state ∉ activeStates := by
      intro c hcm
      rcases hres c hcm with h | h <;> rw [h] <;> decide
    have hno : ∀ c ∈ T.children q.id, c.state ≠ .failed := by
      intro c hcm
      rcases hres c hcm with h | h <;> rw [h] <;> decide
    rw [checkWaitingParent_complete hq hw hc hne hno]
    rw [← hcode] at hreg
    have hraises : (hooks.onAllChildrenDone q.id).raises E' q = none := by
      rw [hhook]
      unfold HookRun.raises
      split_ifs <;> rfl
    obtain ⟨T', v', hhookrun, hv, -, hstay, -⟩ := runTaskTypeHook_returns hq hw hc hreg hraises
    obtain rfl : v' = v := by rw [hhook] at hv; exact (Except.ok.inj hv).symm
    obtain ⟨hget, hwave⟩ := hstay (by rw [hhook])
    have hquiet : ∀ c ∈ T'.children q.id, c.state ∉ activeStates := fun c hcm ha =>
      hwave.1 ⟨c, hcm, ha⟩ (by rw [hhook])
    obtain ⟨T'', calls, h1, rfl⟩ := completeParent_returns hw hooks hhookrun hget hquiet
    exact ⟨_, calls, _, h1, Table.get_update_self hget, rfl, rfl⟩

def exportEnv : Env := ⟨[("export", {}), ("chunk", {})], ["export", "chunk"], 500, []⟩

def failedExport (leftover : TaskState) : Table where
  rows := [
    { id := 1, name := "export", typeCode := "export", state := .failed, dateCreated := 10
      createUid := 2 },
    { id := 2, name := "export [1/1]", typeCode := "chunk", state := leftover
      parentId := some 1, dateCreated := 20, createUid := 2 }]
  nodup := by simp

/-- The parent by hand retried and executed again, with one new child. -/
def retriedExport (leftover : TaskState) : Except TaskError Table :=
  reattempt exportEnv (.manual none) 1 7 [{ typeCode := "chunk" }] 1 (failedExport leftover)

def finishTask (t : Task) : Task := { t with state := .done, dateCompleted := some 600 }

/-- The only child of the new attempt is done, and the check fails the parent for the child that
failed in the attempt before. -/
theorem retried_parent_fails : ∃ T₁ T, retriedExport .failed = .ok T₁ ∧ OthersRun 1 T₁ T ∧
    (∀ c ∈ T.children 1, (failedExport .failed).get c.id = none → c.state = .done) ∧
    (∀ c ∈ T.children 1, (failedExport .failed).get c.id ≠ none → c.state ∈ terminalStates) ∧
    ((afterCheck exportEnv quietHooks T 1).get 1).map Task.state = some .failed := by
  obtain ⟨T₁, h⟩ : ∃ T₁, retriedExport .failed = .ok T₁ := ⟨_, rfl⟩
  obtain rfl := Except.ok.inj h
  refine ⟨_, _, rfl, .update 3 finishTask (by decide) (fun _ => rfl) .refl, ?_, ?_, ?_⟩ <;> decide

theorem retried_parent_done : ∃ T₁, retriedExport .cancelled = .ok T₁ ∧
    DoneWith none 1 (checkWaitingParent exportEnv quietHooks 1 (T₁.update 3 finishTask)) := by
  obtain ⟨T₁, h⟩ : ∃ T₁, retriedExport .cancelled = .ok T₁ := ⟨_, rfl⟩
  obtain ⟨p, hp⟩ : ∃ p, (failedExport .cancelled).get 1 = some p := ⟨_, rfl⟩
  obtain rfl := Option.some.inj hp
  obtain rfl := Except.ok.inj h
  refine ⟨_, rfl, (retried_parent_done_iff hp h (by decide)
    (.update 3 finishTask (by decide) (fun _ => rfl) .refl) ?_ ?_ rfl).2 ?_⟩ <;> decide

end GenericTaskQueue
