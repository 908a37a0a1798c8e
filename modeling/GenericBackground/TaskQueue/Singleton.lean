import GenericBackground.TaskQueue.System

/-!
# Singleton task types

A claim that passes a type as singleton takes at most one task of it: the first pending one in
(priority, date_created) order, and only if its snapshot shows no task of the type in flight. Two
claims that are open at the same time exclude each other through the lock on that one row, so the
type stays exclusive as long as they agree on which row it is (`Sys.agrees`). They disagree when
another pending task has come first between their snapshots (created, retried, requeued or given
another priority), or when they break a tie differently; then both claim a task of the type.
-/

namespace GenericTaskQueue

open Query RowStore Lts

variable {reg : Registry} {s s' : Sys} {ev : Ev} {τ : TypeCode}

/-- The claim `x` may take row `k`, a task of type `τ`: the row meets its `WHERE`. -/
def mayTake (τ : TypeCode) (x : Txn Tx TaskId Task) (k : TaskId) : Bool :=
  match x.act with
  | .claimTask c rank _ => (x.snap.row k).any fun t =>
      t.typeCode = τ ∧ claimable c (ranked rank x.snap) t = true
  | _ => false

def Sys.passes (τ : TypeCode) : Ev → Bool
  | .db (.begin (.claimTask c _ _)) => τ ∈ c.singletonTypes
  | _ => true

/-- A claim that takes its snapshot may take no other task of type `τ` than an open claim whose
candidate has not changed since. -/
def Sys.agrees (τ : TypeCode) (s : Sys) : Ev → Bool
  | .db (.begin a) => (List.range s.db.nextId).all fun j => (s.db.txns j).all fun y =>
      y.snap.keys.all fun k => mayTake τ y k = true ∧ s.db.cur.ver k = y.snap.ver k →
        ∀ k' ∈ s.db.cur.keys, mayTake τ ⟨a, s.db.cur, [], []⟩ k' = true → k' = k
  | _ => true

def Exclusive (τ : TypeCode) (σ : Snapshot TaskId Task) : Prop :=
  ∀ k k' t t', σ.row k = some t → σ.row k' = some t' → t.typeCode = τ → t'.typeCode = τ →
    t.state ∈ inFlightStates → t'.state ∈ inFlightStates → k = k'

theorem mayTake_iff {x : Txn Tx TaskId Task} {k : TaskId} : mayTake τ x k = true ↔
    ∃ c rank uuid t, x.act = .claimTask c rank uuid ∧ x.snap.row k = some t ∧ t.typeCode = τ ∧
      claimable c (ranked rank x.snap) t = true := by
  unfold mayTake
  split
  · next c rank uuid heq =>
    rw [Option.any_eq_true]
    constructor
    · rintro ⟨t, ht, h⟩
      obtain ⟨hτ, hc⟩ := of_decide_eq_true h
      exact ⟨c, rank, uuid, t, heq, ht, hτ, hc⟩
    · rintro ⟨c', rank', uuid', t, heq', ht, hτ, hc⟩
      obtain ⟨rfl, rfl, rfl⟩ := Tx.claimTask.inj (heq.symm.trans heq')
      exact ⟨t, ht, decide_eq_true ⟨hτ, hc⟩⟩
  · next hne => exact ⟨nofun, fun ⟨c, rank, uuid, _, heq, _⟩ => absurd heq (hne c rank uuid)⟩

theorem mayTake_unique {x : Txn Tx TaskId Task} {k k' : TaskId}
    (hid : ∀ k, IdAt k (x.snap.row k))
    (hs : ∀ c rank uuid, x.act = .claimTask c rank uuid → τ ∈ c.singletonTypes)
    (h : mayTake τ x k = true) (h' : mayTake τ x k' = true) : k = k' := by
  obtain ⟨c, rank, uuid, t, hact, ht, hτ, hc⟩ := mayTake_iff.1 h
  obtain ⟨c', rank', uuid', t', hact', ht', hτ', hc'⟩ := mayTake_iff.1 h'
  obtain ⟨rfl, rfl, rfl⟩ := Tx.claimTask.inj (hact.symm.trans hact')
  have hτs := hs c rank uuid hact
  obtain ⟨-, -, -, -, hsing⟩ := claimable_iff.1 hc
  obtain ⟨-, -, -, -, hsing'⟩ := claimable_iff.1 hc'
  have hfirst := (hsing (hτ ▸ hτs)).2
  have hfirst' := (hsing' (hτ' ▸ hτs)).2
  rw [hτ] at hfirst
  rw [hτ', hfirst] at hfirst'
  rw [← hid k t ht, ← hid k' t' ht']
  exact Option.some.inj hfirst'

/-- A claim that sees a pending task of the type strictly before all the others may take no other:
it agrees with the open claims as long as their candidate stays first. -/
theorem mayTake_first {x : Txn Tx TaskId Task} (hok : x.snap.Ok) (hid : ∀ k, IdAt k (x.snap.row k))
    (hs : ∀ c rank uuid, x.act = .claimTask c rank uuid → τ ∈ c.singletonTypes) {k k' : TaskId}
    {t : Task} (ht : x.snap.row k = some t) (hτ : t.typeCode = τ) (hp : t.state = .pending)
    (hfirst : ∀ k' u, x.snap.row k' = some u → u.typeCode = τ → u.state = .pending → u ≠ t →
      ¬ keyLE u t) (h : mayTake τ x k' = true) : k' = k := by
  obtain ⟨c, rank, uuid, t', hact, ht', hτ', hc⟩ := mayTake_iff.1 h
  obtain ⟨-, -, -, -, hsing⟩ := claimable_iff.1 hc
  obtain ⟨u, hu, hid'⟩ := Option.map_eq_some_iff.1 (hsing (hτ' ▸ hs c rank uuid hact)).2
  obtain ⟨hmem, hτu, hpu⟩ := canonical_spec hu
  obtain ⟨ku, hku⟩ := (Snapshot.mem_table hok).1 (mem_ranked.1 hmem)
  have hle : u = t ∨ keyLE u t := first_le hu (mem_ranked.2 ((Snapshot.mem_table hok).2 ⟨k, ht⟩))
    (decide_eq_true ⟨hτ.trans hτ'.symm, hp⟩)
  have hut : u = t := by
    by_contra hne
    exact hfirst ku u hku (hτu.trans hτ') hpu hne (hle.resolve_left hne)
  rw [← hid k' t' ht', ← hid k t ht, ← hid', hut]

theorem mayTake_free {x : Txn Tx TaskId Task} {k : TaskId} (hok : x.snap.Ok)
    (hs : ∀ c rank uuid, x.act = .claimTask c rank uuid → τ ∈ c.singletonTypes)
    (h : mayTake τ x k = true) {k' : TaskId} {u : Task} (hu : x.snap.row k' = some u)
    (hτu : u.typeCode = τ) : u.state ∉ inFlightStates := by
  obtain ⟨c, rank, uuid, t, hact, ht, hτ, hc⟩ := mayTake_iff.1 h
  obtain ⟨-, -, -, -, hsing⟩ := claimable_iff.1 hc
  have hfree := (hsing (hτ ▸ hs c rank uuid hact)).1
  intro hf
  unfold typeInFlight at hfree
  rw [List.any_eq_false] at hfree
  exact hfree u (mem_ranked.2 ((Snapshot.mem_table hok).2 ⟨k', hu⟩))
    (decide_eq_true ⟨hτu.trans hτ.symm, hf⟩)

/-- What open claims know of the type: each passes it; any two that may take a row not changed
since may take the same one; and as long as such a row has not changed, no task of the type is in
flight. -/
structure Singled (τ : TypeCode) (s : Sys) : Prop where
  passes : ∀ i x c rank uuid, s.db.txns i = some x → x.act = .claimTask c rank uuid →
    τ ∈ c.singletonTypes
  same : ∀ i j x y k k', s.db.txns i = some x → s.db.txns j = some y → mayTake τ x k = true →
    mayTake τ y k' = true → s.db.cur.ver k = x.snap.ver k → s.db.cur.ver k' = y.snap.ver k' → k = k'
  free : ∀ i x k, s.db.txns i = some x → mayTake τ x k = true → s.db.cur.ver k = x.snap.ver k →
    ∀ k' t, s.db.cur.row k' = some t → t.typeCode = τ → t.state ∉ inFlightStates
  exclusive : Exclusive τ s.db.cur

theorem Start.singled (h : Start s) : Singled τ s where
  passes _ _ _ _ _ hx := absurd hx h.closed
  same _ _ _ _ _ _ hx := absurd hx h.closed
  free _ _ _ hx := absurd hx h.closed
  exclusive k _ t _ ht _ _ _ hf := absurd hf (h.idle k t ht)

theorem mayTake_congr {x y : Txn Tx TaskId Task} (hact : x.act = y.act) (hsnap : x.snap = y.snap)
    (k : TaskId) : mayTake τ x k = mayTake τ y k := by
  unfold mayTake
  rw [hact, hsnap]

theorem Claimed.mayTake (hi : Inv reg s) {k : TaskId} {r : RunnerId} (hc : Claimed s s' ev k r)
    {t : Task} (ht : s'.db.cur.row k = some t) (hτ : t.typeCode = τ) :
    ∃ i x, ev = .db (.commit i) ∧ s.db.txns i = some x ∧ mayTake τ x k = true ∧
      s.db.cur.ver k = x.snap.ver k ∧ s'.db.cur.row k ≠ s.db.cur.row k := by
  obtain ⟨i, x, c, rank, uuid, rfl, hx, hact, hk, -, u, hu, hp, hrow⟩ := hc
  obtain ⟨v, hv, -, hsel⟩ := claim_locked (hi.wf.txn i x hx) (hi.snapIds i x hx) hact hk
  have huv : u = v := by
    rw [(hi.wf.txn i x hx).locked_row hk, hu] at hv
    exact Option.some.inj hv
  rw [hrow] at ht
  obtain rfl := Option.some.inj ht
  refine ⟨i, x, rfl, hx, mayTake_iff.2 ⟨c, rank, uuid, v, hact, hv, huv ▸ hτ,
    (claimSelect_pending hsel).2⟩, (hi.wf.txn i x hx).unchanged k hk, fun heq => ?_⟩
  rw [hrow, hu] at heq
  have := congrArg Task.state (Option.some.inj heq)
  rw [hp] at this
  cases this

theorem agrees_iff {a : Tx} (hi : Inv reg s) (h : s.agrees τ (.db (.begin a)) = true) {j : ℕ}
    {x y : Txn Tx TaskId Task} (hact : x.act = a) (hsnap : x.snap = s.db.cur)
    (hy : s.db.txns j = some y) {k k' : TaskId} (hk : mayTake τ y k = true)
    (hv : s.db.cur.ver k = y.snap.ver k) (hk' : mayTake τ x k' = true) : k' = k := by
  have key : ∀ {z : Txn Tx TaskId Task} {k : TaskId}, z.snap.Ok → mayTake τ z k = true →
      k ∈ z.snap.keys := by
    intro z k hz hk
    obtain ⟨c, rank, uuid, t, -, ht, -⟩ := mayTake_iff.1 hk
    exact hz.present k t ht
  simp only [Sys.agrees, List.all_eq_true, List.mem_range] at h
  have := h j (hi.wf.bound j y hy)
  rw [hy, Option.all_some, List.all_eq_true] at this
  have := of_decide_eq_true (this k (key (hi.wf.txn j y hy).snap hk)) ⟨hk, hv⟩ k'
  refine this ?_ ((mayTake_congr (y := x) hact.symm hsnap.symm k').trans hk')
  exact hsnap ▸ key (hsnap ▸ hi.wf.cur) hk'

theorem Singled.step (hi : Inv reg s) (hs : Singled τ s) (hp : Sys.passes τ ev = true)
    (ha : s.agrees τ ev = true) (h : s.step reg ev = some s') : Singled τ s' := by
  have passes' : ∀ i x c rank uuid, s'.db.txns i = some x → x.act = .claimTask c rank uuid →
      τ ∈ c.singletonTypes := by
    intro i x c rank uuid hx hact
    rcases Sys.step_txn h hx with ⟨y, hy, hya, -⟩ | ⟨hev, -⟩
    · exact hs.passes i y c rank uuid hy (hya ▸ hact)
    · rw [hev, hact] at hp
      exact of_decide_eq_true hp
  -- a row that has not changed since an old snapshot had not changed before the step
  have back : ∀ {i x k}, s.db.txns i = some x → s'.db.cur.ver k = x.snap.ver k →
      s.db.cur.ver k = x.snap.ver k := by
    intro i x k hx hv
    have h1 := (hi.wf.txn i x hx).older k
    have h2 := Sys.ver_le h k
    omega
  refine ⟨passes', ?_, ?_, ?_⟩
  · intro i j x y k k' hx hy hk hk' hv hv'
    rcases Sys.step_txn h hx with ⟨x₀, hx₀, hxa, hxs⟩ | ⟨hevx, hxs, -⟩ <;>
      rcases Sys.step_txn h hy with ⟨y₀, hy₀, hya, hys⟩ | ⟨hevy, hys, -⟩
    · rw [mayTake_congr hxa hxs] at hk
      rw [mayTake_congr hya hys] at hk'
      exact hs.same i j x₀ y₀ k k' hx₀ hy₀ hk hk' (back hx₀ (hxs ▸ hv)) (back hy₀ (hys ▸ hv'))
    · rw [mayTake_congr hxa hxs] at hk
      exact (agrees_iff hi (hevy ▸ ha) rfl hys hx₀ hk (back hx₀ (hxs ▸ hv)) hk').symm
    · rw [mayTake_congr hya hys] at hk'
      exact agrees_iff hi (hevx ▸ ha) rfl hxs hy₀ hk' (back hy₀ (hys ▸ hv')) hk
    · have hact : y.act = x.act := Event.begin.inj (Ev.db.inj (hevy.symm.trans hevx))
      rw [mayTake_congr hact (hys.trans hxs.symm)] at hk'
      exact mayTake_unique ((hi.step h).snapIds i x hx) (passes' i x · · · hx) hk hk'
  · intro i x k hx hk hv k' t ht hτ hf
    rcases Sys.step_txn h hx with ⟨x₀, hx₀, hxa, hxs⟩ | ⟨-, hxs, hcur, -⟩
    · rw [mayTake_congr hxa hxs] at hk
      have hv₀ := back hx₀ (hxs ▸ hv)
      rcases Sys.row_cases hi.wf h k' with hkept | ⟨r, hc⟩
      · obtain ⟨t₀, ht₀, hf₀, -, hτ₀, -⟩ := hkept.flight t ht hf
        exact hs.free i x₀ k hx₀ hk hv₀ k' t₀ ht₀ (hτ₀.trans hτ) hf₀
      · -- the row that was taken is the one that `x` may take, and has changed
        obtain ⟨j, y, -, hy, hk', hv', hne⟩ := hc.mayTake hi ht hτ
        obtain rfl := hs.same i j x₀ y k k' hx₀ hy hk hk' hv₀ hv'
        exact hne (Sys.row_of_ver h ((hxs ▸ hv).trans hv₀.symm))
    · rw [hcur] at ht
      exact mayTake_free (hxs ▸ hi.wf.cur) (passes' i x · · · hx) hk (hxs ▸ ht) hτ hf
  · intro k k' t t' ht ht' hτ hτ' hf hf'
    rcases Sys.row_cases hi.wf h k with hkept | ⟨r, hc⟩ <;>
      rcases Sys.row_cases hi.wf h k' with hkept' | ⟨r', hc'⟩
    · obtain ⟨u, hu, huf, -, hτu, -⟩ := hkept.flight t ht hf
      obtain ⟨u', hu', huf', -, hτu', -⟩ := hkept'.flight t' ht' hf'
      exact hs.exclusive k k' u u' hu hu' (hτu.trans hτ) (hτu'.trans hτ') huf huf'
    · obtain ⟨u, hu, huf, -, hτu, -⟩ := hkept.flight t ht hf
      obtain ⟨j, y, -, hy, hk', hv', -⟩ := hc'.mayTake hi ht' hτ'
      exact absurd huf (hs.free j y k' hy hk' hv' k u hu (hτu.trans hτ))
    · obtain ⟨u', hu', huf', -, hτu', -⟩ := hkept'.flight t' ht' hf'
      obtain ⟨j, y, -, hy, hk, hv, -⟩ := hc.mayTake hi ht hτ
      exact absurd huf' (hs.free j y k hy hk hv k' u' hu' (hτu'.trans hτ'))
    · obtain ⟨i, x, -, hx, hk, hv, -⟩ := hc.mayTake hi ht hτ
      obtain ⟨j, y, -, hy, hk', hv', -⟩ := hc'.mayTake hi ht' hτ'
      exact hs.same i j x y k k' hx hy hk hk' hv hv'

/-- **Singletons.** In every run in which every claim passes `τ`, and any two claims that are open
at the same time agree on the task of type `τ` that they may take, at most one task of type `τ` is
in flight. -/
theorem singleton_exclusive {es : List Ev} (h0 : Start s)
    (hp : Path (Sys.step reg) (fun s ev => Sys.passes τ ev = true ∧ s.agrees τ ev = true) s es s') :
    Exclusive τ s'.db.cur :=
  (hp.inv_of (fun _ _ _ hi _ h => hi.step h)
    (fun _ _ _ hi hs hok h => hs.step hi hok.1 hok.2 h) h0.inv h0.singled).exclusive

def singletonClaim : ClaimArgs := { exportClaim 1 with singletonTypes := ["export"] }

/-- Two claims at a time, of one task. -/
def contendedClaims : List Ev := [
  .db (.begin (.claimTask singletonClaim id fun _ => 7)),
  .db (.begin (.claimTask singletonClaim id fun _ => 8)), .db (.lock 0), .db (.skip 1),
  .db (.commit 0), .db (.commit 1)]

theorem contendedClaims_exclusive : ∃ s,
    Path (Sys.step []) (fun s ev => Sys.passes "export" ev = true ∧ s.agrees "export" ev = true)
      (Sys.init oneTask) contendedClaims s ∧
    (s.db.cur.row 1).map Task.state = some .assigned ∧ Exclusive "export" s.db.cur := by
  have hp : Path (Sys.step [])
      (fun s ev => Sys.passes "export" ev = true ∧ s.agrees "export" ev = true)
      (Sys.init oneTask) contendedClaims (reached _ _ _ _) := path_reached (by decide +kernel)
  exact ⟨_, hp, rfl, singleton_exclusive (Start.init (by decide)) hp⟩

def urgentExport : TaskVals :=
  { id := 2, name := "export", typeCode := "export", priority := 0, dateCreated := 50
    createUid := 2 }

/-- Between the snapshots of two claims a task of the type is created that comes first. -/
def overtaken : List Ev := [
  .db (.begin (.claimTask singletonClaim id fun _ => 7)),
  .db (.begin (.user [(2, .create urgentExport)])), .db (.lock 1), .db (.commit 1),
  .db (.begin (.claimTask singletonClaim id fun _ => 8)), .db (.lock 2), .db (.commit 2),
  .db (.lock 0), .db (.commit 0)]

/-- Each claim takes the task that is the first one in its own snapshot. -/
theorem overtaken_not_exclusive : ∃ s,
    Path (Sys.step []) (fun _ ev => Sys.passes "export" ev = true) (Sys.init oneTask) overtaken s ∧
    (s.db.cur.row 1).map (fun t => (t.typeCode, t.state)) = some ("export", .assigned) ∧
    (s.db.cur.row 2).map (fun t => (t.typeCode, t.state)) = some ("export", .assigned) ∧
    ¬ Exclusive "export" s.db.cur := by
  have hp : Path (Sys.step []) (fun _ ev => Sys.passes "export" ev = true) (Sys.init oneTask)
      overtaken (reached _ _ _ _) := path_reached (by decide +kernel)
  refine ⟨_, hp, rfl, rfl, fun hex => ?_⟩
  exact absurd (hex 1 2 _ _ rfl rfl rfl rfl (by decide +kernel) (by decide +kernel)) (by decide)

end GenericTaskQueue
