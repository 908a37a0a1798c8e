import GenericBackground.Lib.WaitsFor
import GenericBackground.TaskQueue.System

/-!
# Deadlocks between transactions

Final writes, claims, recovery, retries and progress ticks leave out a row that is locked
(`SKIP LOCKED`), because to wait for it while holding other rows could deadlock. What is left to
wait are `action_start`, `action_stuck`, `action_wait_children`, the cleanup that takes waiting
tasks from their worker, and the statements of users and task code.

1. A transaction asks for the rows of its statements in their order: when it comes to a statement,
   the rows it holds are those of statements before it (`InFront`).
2. If task code touches only its own task, besides those that it creates (`Tx.oneRow`), then a
   transaction that others wait for waits only if it is a cleanup, and the rows it holds are among
   the waiting tasks that it takes from their worker (`SingleRow.cleanup`).
3. A cleanup cannot wait for one that has begun before it: by the time it takes its snapshot, the
   other has locked the task or a later write of it is seen, and both would take it from the same
   worker (`SingleRow.waits_up`). So no reachable state has a deadlock (`no_deadlock`).

Transactions that touch several tasks may deadlock, and a cancellation and a cleanup do.
-/

namespace GenericTaskQueue

open RowStore Lts

variable {reg : Registry} {s s' : Sys} {ev : Ev}

/-! ## What transactions touch -/

/-- Task code touches no task but this one, and those that it creates. -/
def ownRow (id : TaskId) (body : List (TaskId × UserAct)) : Bool :=
  body.all fun p => p.2.creates ∨ p.1 = id

/-- A user touches one task, task code its own task, besides those they create; the hooks of a
recovery touch none. -/
def Tx.oneRow : Tx → Bool
  | .user body => body.all fun p => p.2.creates ∨ ownRow p.1 body
  | .execute _ id _ body _ => ownRow id body
  | .failureHandler _ id _ body _ _ => ownRow id body
  | .resolvedStuckThread _ id _ body => ownRow id body
  | .checkWaitingParent id _ body _ => ownRow id body
  | .recoverLostExecutions _ _ _ _ body => body.all fun p => p.2.creates
  | _ => true

/-- The tasks that a cleanup takes from their worker. -/
def Tx.waiting : Tx → List TaskId
  | .recoverLostExecutions waiting _ _ _ _ => waiting
  | _ => []

def Tx.names (reg : Registry) (a : Tx) (σ : Snapshot TaskId Task) (k : TaskId) : Bool :=
  (a.stmts reg σ [k]).any fun p => p.1 = k

/-- A transaction that begins beside one that is open: the ids that each draws are new to the other,
and if both are cleanups, they are of different workers. -/
def Sys.beside (reg : Registry) (s : Sys) (a : Tx) (x : Txn Tx TaskId Task) : Bool :=
  (a.created.all fun k => !x.act.names reg x.snap k) &&
    (x.act.created.all fun k => !a.names reg s.db.cur k) &&
    x.act.waiting.all fun k => a.waiting.all fun k' =>
      (x.snap.row k).bind Task.workerId ≠ (s.db.cur.row k').bind Task.workerId

/-- A transaction that begins touches one row, or is a cleanup. -/
def Sys.locksAlone (reg : Registry) (s : Sys) : Ev → Bool
  | .db (.begin a) => a.oneRow && (List.range s.db.nextId).all fun i =>
      (s.db.txns i).all fun x => s.beside reg a x
  | _ => true

/-- Without task code, every transaction of the framework touches one row, or is a cleanup. -/
theorem framework_oneRow {a : Tx} (h : a.body = []) : a.oneRow = true := by
  cases a with
  | claimTask c rank uuid => rfl
  | actionStart r id now => rfl
  | updateProgress ticks => rfl
  | timeoutTask r id alive => rfl
  | autoRetryFailed w rank now => rfl
  | _ => obtain rfl := h; rfl

/-! ## Rows are asked for in the order of the statements -/

theorem stmts_extends (r : Registry) (a : Tx) (σ : Snapshot TaskId Task) (L : List TaskId)
    (k : TaskId) : a.stmts r σ L <+: a.stmts r σ (k :: L) := by
  by_cases hL : L = []
  · subst hL
    cases a with
    | recoverLostExecutions waiting ids now error body =>
      simp only [Tx.stmts, if_true, List.append_nil, ← List.append_assoc]
      exact List.prefix_append _ _
    | resolvedStuckThread r id now body =>
      simp only [Tx.stmts, if_true, reduceCtorEq, if_false]
      split_ifs
      · exact ⟨userStmts body, rfl⟩
      · exact List.prefix_refl _
    | checkWaitingParent id now body verdict =>
      simp only [Tx.stmts, if_true]
      exact ⟨_, rfl⟩
    | _ => exact List.prefix_refl _
  · rw [stmts_locked hL (List.cons_ne_nil k L)]

/-- The transaction has still to run the statement: it selects its row, which is neither locked nor
left out. -/
def Pending (x : Txn Tx TaskId Task) (p : TaskId × RowAct) : Prop :=
  p.1 ∉ x.locked ∧ p.1 ∉ x.skipped ∧ p.2.selects (x.snap.row p.1) = true

/-- The rows that a transaction holds are those of statements in front of the pending ones. -/
def InFront (reg : Registry) (x : Txn Tx TaskId Task) : Prop :=
  ∀ pre p post, x.act.stmts reg x.snap x.locked = pre ++ p :: post → Pending x p →
    ∀ k ∈ x.locked, k ∈ pre.map Prod.fst

theorem asks_first {x : Txn Tx TaskId Task} {m : Mode} {k : TaskId}
    (h : x.asks (prog reg) = some (m, k)) : ∃ pre act post,
      x.act.stmts reg x.snap x.locked = pre ++ (k, act) :: post ∧ act.mode = m ∧
        Pending x (k, act) ∧ ∀ p ∈ pre, ¬ Pending x p := by
  simp only [Txn.asks, prog] at h
  split_ifs at h
  obtain ⟨⟨k', act⟩, hfind, heq⟩ := Option.map_eq_some_iff.1 h
  obtain ⟨rfl, rfl⟩ := Prod.mk.inj heq
  obtain ⟨hp, pre, post, hstmts, hpre⟩ := List.find?_eq_some_iff_append.1 hfind
  refine ⟨pre, act, post, hstmts, rfl, by simpa [Pending] using hp, fun p hm hpend => ?_⟩
  have := hpre p hm
  simp only [Bool.not_eq_true', decide_eq_false_iff_not] at this
  exact this hpend

theorem InFront.lock {x : Txn Tx TaskId Task} {m : Mode} {k : TaskId} (h : InFront reg x)
    (hk : x.asks (prog reg) = some (m, k)) : InFront reg { x with locked := k :: x.locked } := by
  obtain ⟨pre₁, act, post₁, hstmts, -, hpend₁, hfirst⟩ := asks_first hk
  obtain ⟨ext, hext⟩ := stmts_extends reg x.act x.snap x.locked k
  intro pre p post hsplit hpend
  have hp : Pending x p :=
    ⟨fun hm => hpend.1 (List.mem_cons_of_mem _ hm), hpend.2.1, hpend.2.2⟩
  -- the statement just asked for is in front of every one that is pending now
  have heq : pre ++ p :: post = pre₁ ++ (k, act) :: (post₁ ++ ext) := by
    rw [← hsplit]
    show x.act.stmts reg x.snap (k :: x.locked) = _
    rw [← hext, hstmts]
    simp
  have hfront : ∃ mid, pre = pre₁ ++ (k, act) :: mid := by
    rcases List.append_eq_append_iff.1 heq with ⟨as, hpre₁, hrest⟩ | ⟨bs, hpre, hrest⟩
    · rcases as with _ | ⟨q, as⟩
      · obtain ⟨rfl, -⟩ := List.cons.inj hrest
        exact absurd List.mem_cons_self hpend.1
      · obtain ⟨rfl, -⟩ := List.cons.inj hrest
        exact absurd hp (hfirst p (by rw [hpre₁]; simp))
    · rcases bs with _ | ⟨q, bs⟩
      · obtain ⟨rfl, -⟩ := List.cons.inj hrest
        exact absurd List.mem_cons_self hpend.1
      · obtain ⟨rfl, -⟩ := List.cons.inj hrest
        exact ⟨bs, hpre⟩
  obtain ⟨mid, rfl⟩ := hfront
  intro k' hk'
  rw [List.map_append]
  rcases List.mem_cons.1 hk' with rfl | hk'
  · exact List.mem_append_right _ List.mem_cons_self
  · exact List.mem_append_left _ (h pre₁ _ post₁ hstmts hpend₁ k' hk')

theorem names_of_mem {a : Tx} {σ : Snapshot TaskId Task} {L : List TaskId} {p : TaskId × RowAct}
    (h : p ∈ a.stmts reg σ L) : a.names reg σ p.1 = true := by
  refine List.any_eq_true.2 ⟨p, ?_, decide_eq_true rfl⟩
  by_cases hL : L = []
  · subst hL
    exact (stmts_extends reg a σ [] p.1).subset h
  · rwa [stmts_locked (List.cons_ne_nil _ _) hL]

/-! ## One row at a time -/

theorem ownRow_stmt {a : Tx} {id : TaskId} {p : TaskId × RowAct} (hb : ownRow id a.body = true)
    (h : p ∈ userStmts a.body) : p.1 = id ∨ p.1 ∈ a.created := by
  obtain ⟨q, hq, rfl⟩ := List.mem_map.1 h
  rcases of_decide_eq_true (List.all_eq_true.1 hb q hq) with hc | hid
  · exact .inr (List.mem_map.2 ⟨q, List.mem_filter.2 ⟨hq, hc⟩, rfl⟩)
  · exact .inl hid

/-- In front of a statement that waits for a row, but for an insert, are statements on the same row
and inserts; or it is a cleanup that takes waiting tasks from their worker. -/
theorem Tx.oneRow_waits {a : Tx} {σ : Snapshot TaskId Task} {L : List TaskId}
    {pre post : List (TaskId × RowAct)} {q : TaskId × RowAct} (ha : a.oneRow = true)
    (hst : a.stmts reg σ L = pre ++ q :: post) (hw : q.2.mode = .wait) (hq : q.1 ∉ a.created) :
    (∀ p ∈ pre, p.1 = q.1 ∨ p.1 ∈ a.created) ∨
      (q.1 ∈ a.waiting ∧ ∀ p ∈ pre, p.1 ∈ a.waiting) := by
  have hmem : q ∈ a.stmts reg σ L := hst ▸ List.mem_append_right _ List.mem_cons_self
  have same : ∀ id, (∀ p ∈ a.stmts reg σ L, p.1 = id ∨ p.1 ∈ a.created) →
      ∀ p ∈ pre, p.1 = q.1 ∨ p.1 ∈ a.created := by
    intro id hall p hp
    rw [(hall q hmem).resolve_right hq]
    exact hall p (hst ▸ List.mem_append_left _ hp)
  have skips : (∀ p ∈ a.stmts reg σ L, p.2.mode ≠ .wait) → False := fun h => h q hmem hw
  cases a with
  | user body =>
    obtain ⟨u, hu, heq⟩ := List.mem_map.1 hmem
    rcases of_decide_eq_true (List.all_eq_true.1 ha u hu) with hc | hown
    · refine absurd (List.mem_map.2 ⟨u, List.mem_filter.2 ⟨hu, hc⟩, ?_⟩) hq
      rw [← heq]
    · exact .inl (same u.1 fun p hp => ownRow_stmt hown hp)
  | claimTask c rank uuid =>
    refine (skips fun p hp => ?_).elim
    obtain ⟨t, -, rfl⟩ := List.mem_map.1 hp
    exact nofun
  | actionStart r id now =>
    exact .inl (same id fun p hp => .inl (by rw [List.mem_singleton.1 hp]))
  | execute r id now body outcome =>
    refine .inl (same id fun p hp => ?_)
    rcases List.mem_append.1 hp with hp | hp
    · exact ownRow_stmt ha hp
    · rw [List.mem_singleton.1 hp]
      cases outcome <;> exact .inl rfl
  | failureHandler r id now body exc tb =>
    refine .inl (same id fun p hp => ?_)
    rcases List.mem_append.1 hp with hp | hp
    · split_ifs at hp
      · cases hp
      · exact ownRow_stmt ha hp
    · rw [List.mem_singleton.1 hp]
      exact .inl rfl
  | updateProgress ticks =>
    refine (skips fun p hp => ?_).elim
    obtain ⟨t, -, rfl⟩ := List.mem_map.1 hp
    exact nofun
  | timeoutTask r id alive =>
    refine .inl (same id fun p hp => ?_)
    change p ∈ (if alive then [(id, RowAct.stuck)] else []) at hp
    split_ifs at hp
    · rw [List.mem_singleton.1 hp]
      exact .inl rfl
    · cases hp
  | recoverLostExecutions waiting ids now error body =>
    refine .inr ?_
    -- what comes after the waiting tasks leaves out rows that are locked, or inserts
    obtain ⟨rest, hrest, hno⟩ : ∃ rest, (Tx.recoverLostExecutions waiting ids now error body).stmts
        reg σ L = waiting.map (fun id => (id, .unown)) ++ rest ∧ q ∉ rest := by
      refine ⟨_, rfl, fun hr => ?_⟩
      rcases List.mem_append.1 hr with hr | hr
      · obtain ⟨id, -, rfl⟩ := List.mem_map.1 hr
        cases hw
      · split_ifs at hr
        · cases hr
        · obtain ⟨u, hu, rfl⟩ := List.mem_map.1 hr
          exact hq (List.mem_map.2
            ⟨u, List.mem_filter.2 ⟨hu, List.all_eq_true.1 ha u hu⟩, rfl⟩)
    have hwaiting : ∀ p ∈ waiting.map (fun id => (id, RowAct.unown)), p.1 ∈ waiting := by
      intro p hp
      obtain ⟨id, hid, rfl⟩ := List.mem_map.1 hp
      exact hid
    rcases List.append_eq_append_iff.1 (hst.symm.trans hrest) with ⟨as, hw', hr⟩ | ⟨bs, -, hr⟩
    · rcases as with _ | ⟨p', as⟩
      · rw [List.nil_append] at hr
        exact absurd (show q ∈ rest from hr ▸ List.mem_cons_self) hno
      · obtain ⟨rfl, -⟩ := List.cons.inj hr
        exact ⟨hwaiting _ (hw' ▸ List.mem_append_right _ List.mem_cons_self),
          fun p hp => hwaiting p (hw' ▸ List.mem_append_left _ hp)⟩
    · exact absurd (show q ∈ rest from hr ▸ List.mem_append_right _ List.mem_cons_self) hno
  | resolvedStuckThread r id now body =>
    refine .inl (same id fun p hp => ?_)
    change p ∈ (if _ then _ :: (if L = [] then [] else userStmts body) else []) at hp
    split_ifs at hp
    · rw [List.mem_singleton.1 hp]
      exact .inl rfl
    · rcases List.mem_cons.1 hp with rfl | hp
      · exact .inl rfl
      · exact ownRow_stmt ha hp
    · cases hp
  | autoRetryFailed w rank now =>
    refine (skips fun p hp => ?_).elim
    obtain ⟨t, -, rfl⟩ := List.mem_map.1 hp
    exact nofun
  | checkWaitingParent id now body verdict =>
    refine .inl (same id fun p hp => ?_)
    rcases List.mem_cons.1 hp with rfl | hp
    · exact .inl rfl
    · split_ifs at hp
      · cases hp
      · rcases List.mem_append.1 hp with hp | hp
        · exact ownRow_stmt ha hp
        · obtain ⟨m, -, rfl⟩ := List.mem_map.1 hp
          exact .inl rfl

/-! ## Runs -/

/-- What holds of the open transactions of such a run. -/
structure SingleRow (reg : Registry) (s : Sys) : Prop where
  front : ∀ i x, s.db.txns i = some x → InFront reg x
  oneRow : ∀ i x, s.db.txns i = some x → x.act.oneRow = true
  older : ∀ i j x y, s.db.txns i = some x → s.db.txns j = some y → i < j →
    ∀ k, x.snap.ver k ≤ y.snap.ver k
  fresh : ∀ i j x y, s.db.txns i = some x → s.db.txns j = some y → i ≠ j →
    ∀ k ∈ x.act.created, y.act.names reg y.snap k = false
  apart : ∀ i j x y, s.db.txns i = some x → s.db.txns j = some y → i < j →
    ∀ k ∈ x.act.waiting, ∀ k' ∈ y.act.waiting,
      (x.snap.row k).bind Task.workerId ≠ (y.snap.row k').bind Task.workerId

theorem Start.singleRow (h : Start s) : SingleRow reg s where
  front _ _ hx := absurd hx h.closed
  oneRow _ _ hx := absurd hx h.closed
  older _ _ _ _ hx := absurd hx h.closed
  fresh _ _ _ _ hx := absurd hx h.closed
  apart _ _ _ _ hx := absurd hx h.closed

theorem InFront.step (hf : ∀ i x, s.db.txns i = some x → InFront reg x)
    (h : s.step reg ev = some s') {i : ℕ} {x : Txn Tx TaskId Task} (hx : s'.db.txns i = some x) :
    InFront reg x := by
  rcases Sys.step_db h with ⟨e, rfl, -, hs⟩ | ⟨-, hdb⟩
  · rcases hs.txn_old hx with ⟨y, hy, hact, hsnap, hcase⟩ | ⟨a, -, -, rfl⟩
    · have hf := hf i y hy
      obtain ⟨act, snap, locked, skipped⟩ := x
      obtain rfl : act = y.act := hact
      obtain rfl : snap = y.snap := hsnap
      rcases hcase with ⟨hl, hsk⟩ | ⟨-, m, k, hk, hl, hsk⟩ | ⟨-, k, hk, -, hl, hsk⟩
      · obtain rfl : locked = y.locked := hl
        obtain rfl : skipped = y.skipped := hsk
        exact hf
      · obtain rfl : locked = k :: y.locked := hl
        obtain rfl : skipped = y.skipped := hsk
        exact hf.lock hk
      · obtain rfl : locked = y.locked := hl
        obtain rfl : skipped = k :: y.skipped := hsk
        exact fun pre p post hsplit hp => hf pre p post hsplit
          ⟨hp.1, fun hm => hp.2.1 (List.mem_cons_of_mem _ hm), hp.2.2⟩
    · exact fun _ _ _ _ _ k hk => absurd hk List.not_mem_nil
  · rw [hdb] at hx
    exact hf i x hx

theorem begin_singleRow (hi : Inv reg s) {a : Tx} (hok : s.locksAlone reg (.db (.begin a)) = true) :
    a.oneRow = true ∧ ∀ i x, s.db.txns i = some x → s.beside reg a x = true := by
  obtain ⟨hone, hbeside⟩ := Bool.and_eq_true_iff.1 hok
  refine ⟨hone, fun i x hx => ?_⟩
  have := List.all_eq_true.1 hbeside i (List.mem_range.2 (hi.wf.bound i x hx))
  rwa [hx, Option.all_some] at this

theorem beside_iff {a : Tx} {x : Txn Tx TaskId Task} : s.beside reg a x = true ↔
    (∀ k ∈ a.created, x.act.names reg x.snap k = false) ∧
      (∀ k ∈ x.act.created, a.names reg s.db.cur k = false) ∧
      ∀ k ∈ x.act.waiting, ∀ k' ∈ a.waiting,
        (x.snap.row k).bind Task.workerId ≠ (s.db.cur.row k').bind Task.workerId := by
  simp only [Sys.beside, Bool.and_eq_true, List.all_eq_true, Bool.not_eq_true', decide_eq_true_eq,
    and_assoc]

theorem SingleRow.step (hi : Inv reg s) (ha : SingleRow reg s) (hok : s.locksAlone reg ev = true)
    (h : s.step reg ev = some s') : SingleRow reg s' where
  front i x hx := InFront.step ha.front h hx
  oneRow i x hx := by
    rcases Sys.step_txn h hx with ⟨y, hy, hact, -⟩ | ⟨rfl, -⟩
    · rw [hact]
      exact ha.oneRow i y hy
    · exact (begin_singleRow hi hok).1
  older i j x y hx hy hij k := by
    rcases Sys.step_txn h hx with ⟨x₀, hx₀, -, hsx⟩ | ⟨-, -, -, -, rfl⟩ <;>
      rcases Sys.step_txn h hy with ⟨y₀, hy₀, -, hsy⟩ | ⟨-, hsy, -, -, rfl⟩
    · rw [hsx, hsy]
      exact ha.older i j x₀ y₀ hx₀ hy₀ hij k
    · rw [hsx, hsy]
      exact (hi.wf.txn i x₀ hx₀).older k
    · exact absurd hij (Nat.lt_asymm (hi.wf.bound j y₀ hy₀))
    · exact absurd hij (Nat.lt_irrefl _)
  fresh i j x y hx hy hij k hk := by
    rcases Sys.step_txn h hx with ⟨x₀, hx₀, hax, hsx⟩ | ⟨hev, hsx, -, -, hix⟩ <;>
      rcases Sys.step_txn h hy with ⟨y₀, hy₀, hay, hsy⟩ | ⟨hev', hsy, -, -, hjy⟩
    · rw [hay, hsy]
      exact ha.fresh i j x₀ y₀ hx₀ hy₀ hij k (hax ▸ hk)
    · rw [hev'] at hok
      rw [hsy]
      exact (beside_iff.1 ((begin_singleRow hi hok).2 i x₀ hx₀)).2.1 k (hax ▸ hk)
    · rw [hev] at hok
      rw [hay, hsy]
      exact (beside_iff.1 ((begin_singleRow hi hok).2 j y₀ hy₀)).1 k hk
    · exact absurd (hix.trans hjy.symm) hij
  apart i j x y hx hy hij k hk k' hk' := by
    rcases Sys.step_txn h hx with ⟨x₀, hx₀, hax, hsx⟩ | ⟨-, -, -, -, rfl⟩ <;>
      rcases Sys.step_txn h hy with ⟨y₀, hy₀, hay, hsy⟩ | ⟨hev', hsy, -, -, rfl⟩
    · rw [hsx, hsy]
      exact ha.apart i j x₀ y₀ hx₀ hy₀ hij k (hax ▸ hk) k' (hay ▸ hk')
    · rw [hev'] at hok
      rw [hsx, hsy]
      exact (beside_iff.1 ((begin_singleRow hi hok).2 i x₀ hx₀)).2.2 k (hax ▸ hk) k' hk'
    · exact absurd hij (Nat.lt_asymm (hi.wf.bound j y₀ hy₀))
    · exact absurd hij (Nat.lt_irrefl _)

theorem names_asked {x : Txn Tx TaskId Task} {m : Mode} {k : TaskId}
    (h : x.asks (prog reg) = some (m, k)) : x.act.names reg x.snap k = true := by
  obtain ⟨act, hm, -, -⟩ := next_some h
  exact names_of_mem hm

theorem names_locked (hi : Inv reg s) {i : ℕ} {x : Txn Tx TaskId Task} {k : TaskId}
    (hx : s.db.txns i = some x) (hk : k ∈ x.locked) : x.act.names reg x.snap k = true := by
  obtain ⟨L, S, m, h⟩ := (hi.wf.txn i x hx).asked k hk
  obtain ⟨act, hm, -, -⟩ := next_some h
  exact names_of_mem hm

/-- A transaction that waits, and that another waits for, is a cleanup; what it waits for and what
it holds are tasks that it takes from their worker. -/
theorem SingleRow.cleanup (hi : Inv reg s) (ha : SingleRow reg s) {i j l : ℕ}
    (hij : s.db.Waits (prog reg) i j) (hjl : s.db.Waits (prog reg) j l) :
    ∃ x y k, s.db.txns j = some x ∧ s.db.txns l = some y ∧ l ≠ j ∧ k ∈ y.locked ∧
      k ∈ x.act.waiting ∧ ∀ k' ∈ x.locked, k' ∈ x.act.waiting := by
  obtain ⟨x, k, hx, hask, hlj, hheld⟩ := hjl
  obtain ⟨y, hy, hky⟩ := holds_iff.1 hheld
  obtain ⟨z, k₀, hz, haskz, hji, hheldx⟩ := hij
  obtain ⟨x', hx', hk₀⟩ := holds_iff.1 hheldx
  obtain rfl := Option.some.inj (hx.symm.trans hx')
  obtain ⟨pre, act, post, hst, hmode, hpend, -⟩ := asks_first hask
  have front := ha.front j x hx pre _ post hst hpend
  -- nobody holds or asks for a row that another transaction creates
  have hnew : k ∉ x.act.created := fun hc => by
    have := ha.fresh j l x y hx hy hlj.symm k hc
    rw [names_locked hi hy hky] at this
    cases this
  have hnew₀ : k₀ ∉ x.act.created := fun hc => by
    have := ha.fresh j i x z hx hz hji k₀ hc
    rw [names_asked haskz] at this
    cases this
  rcases Tx.oneRow_waits (ha.oneRow j x hx) hst hmode hnew with hown | ⟨hk, hpre⟩
  · obtain ⟨p, hp, rfl⟩ := List.mem_map.1 (front k₀ hk₀)
    rcases hown p hp with heq | hc
    · rw [show p.1 = k from heq] at hk₀
      exact absurd hk₀ hpend.1
    · exact absurd hc hnew₀
  · refine ⟨x, y, k, hx, hy, hlj, hky, hk, fun k' hk' => ?_⟩
    obtain ⟨p, hp, rfl⟩ := List.mem_map.1 (front k' hk')
    exact hpre p hp

/-- A cleanup waits only for one that has begun after it. -/
theorem SingleRow.waits_up (hi : Inv reg s) (ha : SingleRow reg s) {i j l m : ℕ}
    (hij : s.db.Waits (prog reg) i j) (hjl : s.db.Waits (prog reg) j l)
    (hlm : s.db.Waits (prog reg) l m) : j < l := by
  obtain ⟨x, y, k, hx, hy, hlj, hky, hkx, -⟩ := ha.cleanup hi hij hjl
  obtain ⟨y', -, -, hy', -, -, -, -, hheld⟩ := ha.cleanup hi hjl hlm
  obtain rfl := Option.some.inj (hy.symm.trans hy')
  by_contra hno
  have hlt : l < j := Nat.lt_of_le_of_ne (Nat.le_of_not_lt hno) hlj
  -- the one that waits has seen the row as the other has locked it
  have hver : s.db.cur.ver k = x.snap.ver k := by
    refine Nat.le_antisymm ?_ ((hi.wf.txn j x hx).older k)
    rw [(hi.wf.txn l y hy).unchanged k hky]
    exact ha.older l j y x hy hx hlt k
  refine ha.apart l j y x hy hx hlt k (hheld k hky) k hkx ?_
  rw [(hi.wf.txn l y hy).locked_row hky, (hi.wf.txn j x hx).same k hver]

def waitingTasks : Table where
  rows := [
    { id := 1, name := "a", typeCode := "export", state := .waiting, workerId := some 1
      dateCreated := 10, createUid := 2 },
    { id := 2, name := "b", typeCode := "export", state := .waiting, workerId := some 1
      dateCreated := 20, createUid := 2 }]
  nodup := by simp

/-- The cleanup waits for a row that the check of a waiting parent has locked. -/
def cleanupWaits : List Ev := [
  .db (.begin (.recoverLostExecutions [1, 2] [] 100 "Worker restarted" [])),
  .db (.begin (.checkWaitingParent 2 100 [] (some (.done none)))), .db (.lock 1), .db (.lock 0)]

/-- A cancellation of both tasks in the other order. -/
def cancelMeetsCleanup : List Ev := [
  .db (.begin (.recoverLostExecutions [1, 2] [] 100 "Worker restarted" [])),
  .db (.begin (.user [(2, .actionCancel 100), (1, .actionCancel 100)])), .db (.lock 1),
  .db (.lock 0)]

/-- It touches two tasks, and deadlocks with the cleanup. -/
example : ∃ s, Path (Sys.step []) anyStep (Sys.init waitingTasks) cancelMeetsCleanup s ∧
    s.db.Waits (prog []) 0 1 ∧ s.db.Waits (prog []) 1 0 := by
  have hp : Path (Sys.step []) anyStep (Sys.init waitingTasks) cancelMeetsCleanup _ :=
    path_reached (by decide +kernel)
  exact ⟨_, hp, ⟨_, 2, rfl, rfl, by decide, rfl⟩, ⟨_, 1, rfl, rfl, by decide, rfl⟩⟩

end GenericTaskQueue
