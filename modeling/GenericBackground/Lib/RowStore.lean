import GenericBackground.Lib.Path
import Mathlib.Data.List.Nodup
import Mathlib.Order.Basic
import Mathlib.Order.Nat
import Mathlib.Tactic.Common

/-!
# Snapshot transactions with row locks

A table under PostgreSQL's REPEATABLE READ, as a step function. A transaction reads the rows that
were committed when it began (`Txn.snap`). To write a row, or to select it `FOR UPDATE`, it locks
the row: the row must be free, and it must not have changed since the snapshot (a transaction
that asks for a changed row cannot go on, it can only abort: a serialization failure). A row
locked by another open transaction is waited for, or left out with `SKIP LOCKED`. A commit writes
rows the transaction has locked and frees them; a lock without a write makes no new version.

`Db.Wf` is the invariant: open transactions lock disjoint sets of rows, and a locked row is as the
locker's snapshot has it. So a commit acts on each of its rows as one atomic step
(`Step.row_change`).
-/

namespace RowStore

/-- What a statement does about a row that another open transaction has locked. -/
inductive Mode where
  | wait
  | skipLocked
  deriving DecidableEq, Repr

/-- The committed rows, the version of each, and the keys used so far. -/
structure Snapshot (K V : Type*) where
  row : K → Option V
  ver : K → ℕ
  keys : List K

/-- The rows as a list, in the order of their keys. -/
def Snapshot.table {K V : Type*} (σ : Snapshot K V) : List V := σ.keys.filterMap σ.row

/-- An open transaction: what it does, its snapshot, the rows it has locked and those it left
out. -/
structure Txn (A K V : Type*) where
  act : A
  snap : Snapshot K V
  locked : List K
  skipped : List K

/-- The committed state and the open transactions, by transaction id. -/
structure Db (A K V : Type*) where
  cur : Snapshot K V
  txns : ℕ → Option (Txn A K V)
  nextId : ℕ

/-- What the transactions of a program do. `next` is the row the transaction asks for after having
locked and left out the rows given, `none` once it is ready to commit; `write` is what it has
written to a row it locked: `none` where it only locks, `some none` where it deletes. One that is
not `valid` has raised an error, and can only abort. -/
structure Prog (A K V : Type*) where
  next : A → Snapshot K V → List K → List K → Option (Mode × K)
  write : A → Snapshot K V → List K → K → Option (Option V)
  valid : A → Snapshot K V → List K → Bool
  next_fresh : ∀ {a σ L S m k}, next a σ L S = some (m, k) → k ∉ L ∧ k ∉ S

inductive Event (A : Type*) where
  | begin (a : A)
  | lock (i : ℕ)
  | skip (i : ℕ)
  | commit (i : ℕ)
  | abort (i : ℕ)
  deriving Repr

variable {A K V : Type*}

def Db.set (s : Db A K V) (i : ℕ) (x : Option (Txn A K V)) : Db A K V :=
  { s with txns := Function.update s.txns i x }

def Txn.asks (P : Prog A K V) (x : Txn A K V) : Option (Mode × K) :=
  P.next x.act x.snap x.locked x.skipped

@[simp] theorem set_txns_self (s : Db A K V) (i : ℕ) (x : Option (Txn A K V)) :
    (s.set i x).txns i = x := by simp [Db.set]

theorem set_txns_ne (s : Db A K V) {i j : ℕ} (x : Option (Txn A K V)) (h : j ≠ i) :
    (s.set i x).txns j = s.txns j := by simp [Db.set, h]

/-- Every row present is listed, once. -/
structure Snapshot.Ok (σ : Snapshot K V) : Prop where
  present : ∀ k v, σ.row k = some v → k ∈ σ.keys
  nodup : σ.keys.Nodup

theorem Snapshot.mem_table {σ : Snapshot K V} (h : σ.Ok) {v : V} :
    v ∈ σ.table ↔ ∃ k, σ.row k = some v := by
  unfold Snapshot.table
  rw [List.mem_filterMap]
  exact ⟨fun ⟨k, _, hk⟩ => ⟨k, hk⟩, fun ⟨k, hk⟩ => ⟨k, h.present k v hk, hk⟩⟩

/-- An open transaction against the committed state: its locked rows have not changed since its
snapshot, and a row of an equal version is the row it read. It asked for the rows it locked and for
those it left out. -/
structure TxnOk (P : Prog A K V) (cur : Snapshot K V) (x : Txn A K V) : Prop where
  unchanged : ∀ k ∈ x.locked, cur.ver k = x.snap.ver k
  older : ∀ k, x.snap.ver k ≤ cur.ver k
  same : ∀ k, cur.ver k = x.snap.ver k → cur.row k = x.snap.row k
  nodup : x.locked.Nodup
  asked : ∀ k ∈ x.locked, ∃ L S m, P.next x.act x.snap L S = some (m, k)
  left : ∀ k ∈ x.skipped, ∃ L S, P.next x.act x.snap L S = some (.skipLocked, k)
  snap : x.snap.Ok

theorem TxnOk.locked_row {P : Prog A K V} {cur : Snapshot K V} {x : Txn A K V}
    (h : TxnOk P cur x) {k : K} (hk : k ∈ x.locked) : x.snap.row k = cur.row k :=
  (h.same k (h.unchanged k hk)).symm

/-- The invariant of a database: open transactions lock disjoint sets of rows. -/
structure Db.Wf (P : Prog A K V) (s : Db A K V) : Prop where
  cur : s.cur.Ok
  bound : ∀ i x, s.txns i = some x → i < s.nextId
  txn : ∀ i x, s.txns i = some x → TxnOk P s.cur x
  disjoint : ∀ i j x y k, s.txns i = some x → s.txns j = some y → k ∈ x.locked → k ∈ y.locked →
    i = j

theorem Wf.set {P : Prog A K V} {s : Db A K V} (h : s.Wf P) {i : ℕ} {x' : Txn A K V}
    (hi : i < s.nextId) (hok : TxnOk P s.cur x')
    (hd : ∀ j y k, j ≠ i → s.txns j = some y → k ∈ x'.locked → k ∉ y.locked) :
    (s.set i (some x')).Wf P where
  cur := h.cur
  bound j y hy := by
    by_cases hj : j = i
    · rw [hj]; exact hi
    · rw [set_txns_ne s _ hj] at hy; exact h.bound j y hy
  txn j y hy := by
    by_cases hj : j = i
    · subst hj; rw [set_txns_self] at hy; obtain rfl := Option.some.inj hy; exact hok
    · rw [set_txns_ne s _ hj] at hy; exact h.txn j y hy
  disjoint j j' y y' k hy hy' hk hk' := by
    by_cases hj : j = i <;> by_cases hj' : j' = i
    · rw [hj, hj']
    · subst hj
      rw [set_txns_self] at hy
      rw [set_txns_ne s _ hj'] at hy'
      obtain rfl := Option.some.inj hy
      exact absurd hk' (hd j' y' k hj' hy' hk)
    · subst hj'
      rw [set_txns_self] at hy'
      rw [set_txns_ne s _ hj] at hy
      obtain rfl := Option.some.inj hy'
      exact absurd hk (hd j y k hj hy hk')
    · rw [set_txns_ne s _ hj] at hy
      rw [set_txns_ne s _ hj'] at hy'
      exact h.disjoint j j' y y' k hy hy' hk hk'

theorem Wf.drop {P : Prog A K V} {s : Db A K V} (h : s.Wf P) (i : ℕ) :
    (s.set i none).Wf P where
  cur := h.cur
  bound j y hy := by
    by_cases hj : j = i
    · subst hj; rw [set_txns_self] at hy; cases hy
    · rw [set_txns_ne s _ hj] at hy; exact h.bound j y hy
  txn j y hy := by
    by_cases hj : j = i
    · subst hj; rw [set_txns_self] at hy; cases hy
    · rw [set_txns_ne s _ hj] at hy; exact h.txn j y hy
  disjoint j j' y y' k hy hy' hk hk' := by
    by_cases hj : j = i
    · subst hj; rw [set_txns_self] at hy; cases hy
    · by_cases hj' : j' = i
      · subst hj'; rw [set_txns_self] at hy'; cases hy'
      · rw [set_txns_ne s _ hj] at hy
        rw [set_txns_ne s _ hj'] at hy'
        exact h.disjoint j j' y y' k hy hy' hk hk'

def Db.init (σ : Snapshot K V) : Db A K V := ⟨σ, fun _ => none, 0⟩

/-! ## The step function -/

variable [DecidableEq K]

/-- Transaction `i` holds the lock of row `k`. -/
def Db.holds (s : Db A K V) (i : ℕ) (k : K) : Bool :=
  (s.txns i).any fun x => decide (k ∈ x.locked)

/-- No other open transaction than `i` has row `k` locked. -/
def Db.Free (s : Db A K V) (i : ℕ) (k : K) : Prop :=
  ∀ j < s.nextId, j ≠ i → s.holds j k = false

instance (s : Db A K V) (i : ℕ) (k : K) : Decidable (s.Free i k) := by
  unfold Db.Free; infer_instance

def Txn.written (P : Prog A K V) (x : Txn A K V) (k : K) : Option (Option V) :=
  if k ∈ x.locked then P.write x.act x.snap x.locked k else none

/-- The committed state with the writes of `x` applied. -/
def Txn.apply (P : Prog A K V) (x : Txn A K V) (σ : Snapshot K V) : Snapshot K V where
  row k := (x.written P k).getD (σ.row k)
  ver k := if (x.written P k).isSome then σ.ver k + 1 else σ.ver k
  keys := σ.keys ++ x.locked.filter (· ∉ σ.keys)

def step (P : Prog A K V) (s : Db A K V) : Event A → Option (Db A K V)
  | .begin a => some { s.set s.nextId (some ⟨a, s.cur, [], []⟩) with nextId := s.nextId + 1 }
  | .lock i => (s.txns i).bind fun x => (x.asks P).bind fun mk =>
    if s.Free i mk.2 ∧ s.cur.ver mk.2 = x.snap.ver mk.2 then
      some (s.set i (some { x with locked := mk.2 :: x.locked }))
    else none
  | .skip i => (s.txns i).bind fun x => (x.asks P).bind fun mk =>
    if mk.1 = .skipLocked ∧ ¬ s.Free i mk.2 then
      some (s.set i (some { x with skipped := mk.2 :: x.skipped }))
    else none
  | .commit i => (s.txns i).bind fun x =>
    if (x.asks P).isNone ∧ P.valid x.act x.snap x.locked = true then
      some { s.set i none with cur := x.apply P s.cur }
    else none
  | .abort i => (s.txns i).map fun _ => s.set i none

inductive Step (P : Prog A K V) (s : Db A K V) : Event A → Db A K V → Prop
  | begin (a : A) :
      Step P s (.begin a) { s.set s.nextId (some ⟨a, s.cur, [], []⟩) with nextId := s.nextId + 1 }
  | lock {i : ℕ} {x : Txn A K V} {m : Mode} {k : K} (hx : s.txns i = some x)
      (hk : x.asks P = some (m, k)) (hf : s.Free i k) (hv : s.cur.ver k = x.snap.ver k) :
      Step P s (.lock i) (s.set i (some { x with locked := k :: x.locked }))
  | skip {i : ℕ} {x : Txn A K V} {k : K} (hx : s.txns i = some x)
      (hk : x.asks P = some (.skipLocked, k)) (hf : ¬ s.Free i k) :
      Step P s (.skip i) (s.set i (some { x with skipped := k :: x.skipped }))
  | commit {i : ℕ} {x : Txn A K V} (hx : s.txns i = some x) (hk : x.asks P = none)
      (hv : P.valid x.act x.snap x.locked = true) :
      Step P s (.commit i) { s.set i none with cur := x.apply P s.cur }
  | abort {i : ℕ} {x : Txn A K V} (hx : s.txns i = some x) : Step P s (.abort i) (s.set i none)

theorem step_iff {P : Prog A K V} {s s' : Db A K V} {e : Event A} :
    step P s e = some s' ↔ Step P s e s' := by
  constructor
  · intro h
    cases e with
    | begin a => obtain rfl := Option.some.inj h; exact .begin a
    | lock i =>
      obtain ⟨x, hx, h⟩ := Option.bind_eq_some_iff.1 h
      obtain ⟨⟨m, k⟩, hk, h⟩ := Option.bind_eq_some_iff.1 h
      simp only [Option.ite_none_right_eq_some, Option.some.injEq] at h
      obtain ⟨⟨hf, hv⟩, rfl⟩ := h
      exact .lock hx hk hf hv
    | skip i =>
      obtain ⟨x, hx, h⟩ := Option.bind_eq_some_iff.1 h
      obtain ⟨⟨m, k⟩, hk, h⟩ := Option.bind_eq_some_iff.1 h
      simp only [Option.ite_none_right_eq_some, Option.some.injEq] at h
      obtain ⟨⟨rfl, hf⟩, rfl⟩ := h
      exact .skip hx hk hf
    | commit i =>
      obtain ⟨x, hx, h⟩ := Option.bind_eq_some_iff.1 h
      simp only [Option.ite_none_right_eq_some, Option.some.injEq, Option.isNone_iff_eq_none] at h
      obtain ⟨⟨hk, hv⟩, rfl⟩ := h
      exact .commit hx hk hv
    | abort i =>
      obtain ⟨x, hx, rfl⟩ := Option.map_eq_some_iff.1 h
      exact .abort hx
  · intro h
    cases h with
    | begin a => rfl
    | lock hx hk hf hv => simp [step, hx, hk, hf, hv]
    | skip hx hk hf => simp [step, hx, hk, hf]
    | commit hx hk hv => simp [step, hx, hk, hv]
    | abort hx => simp [step, hx]

theorem holds_iff {s : Db A K V} {i : ℕ} {k : K} :
    s.holds i k = true ↔ ∃ x, s.txns i = some x ∧ k ∈ x.locked := by
  unfold Db.holds
  cases h : s.txns i <;> simp

theorem Txn.mem_of_written {P : Prog A K V} {x : Txn A K V} {k : K} {o : Option V}
    (h : x.written P k = some o) : k ∈ x.locked ∧ P.write x.act x.snap x.locked k = some o := by
  unfold Txn.written at h
  split_ifs at h with hk
  exact ⟨hk, h⟩

theorem Txn.written_of_not_mem {P : Prog A K V} {x : Txn A K V} {k : K} (h : k ∉ x.locked) :
    x.written P k = none := if_neg h

theorem Txn.written_of_mem {P : Prog A K V} {x : Txn A K V} {k : K} (h : k ∈ x.locked) :
    x.written P k = P.write x.act x.snap x.locked k := if_pos h

theorem Txn.apply_row_of_none {P : Prog A K V} {x : Txn A K V} {σ : Snapshot K V} {k : K}
    (h : x.written P k = none) : (x.apply P σ).row k = σ.row k := by
  show (x.written P k).getD (σ.row k) = σ.row k
  rw [h, Option.getD_none]

theorem Txn.apply_row_of_some {P : Prog A K V} {x : Txn A K V} {σ : Snapshot K V} {k : K}
    {o : Option V} (h : x.written P k = some o) : (x.apply P σ).row k = o := by
  show (x.written P k).getD (σ.row k) = o
  rw [h, Option.getD_some]

theorem Txn.apply_ver_of_none {P : Prog A K V} {x : Txn A K V} {σ : Snapshot K V} {k : K}
    (h : x.written P k = none) : (x.apply P σ).ver k = σ.ver k := by
  show (if (x.written P k).isSome then σ.ver k + 1 else σ.ver k) = σ.ver k
  rw [h]; rfl

theorem Txn.apply_ver_of_some {P : Prog A K V} {x : Txn A K V} {σ : Snapshot K V} {k : K}
    {o : Option V} (h : x.written P k = some o) : (x.apply P σ).ver k = σ.ver k + 1 := by
  show (if (x.written P k).isSome then σ.ver k + 1 else σ.ver k) = σ.ver k + 1
  rw [h]; rfl

theorem Txn.le_apply_ver {P : Prog A K V} {x : Txn A K V} {σ : Snapshot K V} {k : K} :
    σ.ver k ≤ (x.apply P σ).ver k := by
  rcases h : x.written P k with _ | o
  · rw [apply_ver_of_none h]
  · rw [apply_ver_of_some h]; exact Nat.le_succ _

/-! ## The lock invariant -/

theorem Snapshot.Ok.apply {P : Prog A K V} {x : Txn A K V} {σ : Snapshot K V} (h : σ.Ok)
    (hx : x.locked.Nodup) : (x.apply P σ).Ok where
  present k v hv := by
    show k ∈ σ.keys ++ x.locked.filter (· ∉ σ.keys)
    rw [List.mem_append, List.mem_filter]
    rcases hw : x.written P k with _ | o
    · rw [Txn.apply_row_of_none hw] at hv
      exact .inl (h.present k v hv)
    · by_cases hk : k ∈ σ.keys
      · exact .inl hk
      · exact .inr ⟨(Txn.mem_of_written hw).1, by simpa using hk⟩
  nodup := by
    show (σ.keys ++ x.locked.filter (· ∉ σ.keys)).Nodup
    rw [List.nodup_append]
    refine ⟨h.nodup, hx.filter _, fun a ha b hb hab => ?_⟩
    subst hab
    simpa [ha] using (List.mem_filter.1 hb).2

theorem TxnOk.apply {P : Prog A K V} {x y : Txn A K V} {cur : Snapshot K V}
    (h : TxnOk P cur y) (hd : ∀ k ∈ y.locked, k ∉ x.locked) : TxnOk P (x.apply P cur) y where
  unchanged k hk := by
    rw [Txn.apply_ver_of_none (Txn.written_of_not_mem (hd k hk))]
    exact h.unchanged k hk
  older k := Nat.le_trans (h.older k) Txn.le_apply_ver
  same k hk := by
    rcases hw : x.written P k with _ | o
    · rw [Txn.apply_ver_of_none hw] at hk
      rw [Txn.apply_row_of_none hw]
      exact h.same k hk
    · -- a new version is newer than every snapshot
      rw [Txn.apply_ver_of_some hw] at hk
      have := h.older k
      omega
  nodup := h.nodup
  asked := h.asked
  left := h.left
  snap := h.snap

/-- **Lock invariant.** Every step keeps the database well-formed. -/
theorem Step.wf {P : Prog A K V} {s s' : Db A K V} {e : Event A} (h : s.Wf P)
    (hs : Step P s e s') : s'.Wf P := by
  cases hs with
  | begin a =>
    refine ⟨h.cur, fun j y hy => ?_, fun j y hy => ?_, fun j j' y y' k hy hy' hk hk' => ?_⟩
    · by_cases hj : j = s.nextId
      · rw [hj]; exact Nat.lt_succ_self _
      · exact Nat.lt_succ_of_lt (h.bound j y (by rwa [← set_txns_ne s _ hj]))
    · by_cases hj : j = s.nextId
      · subst hj
        have hy := hy
        rw [show _ = some _ from set_txns_self s _ _] at hy
        obtain rfl := Option.some.inj hy
        exact ⟨fun _ hk => absurd hk List.not_mem_nil, fun _ => Nat.le_refl _, fun _ _ => rfl,
          List.nodup_nil, fun _ hk => absurd hk List.not_mem_nil,
          fun _ hk => absurd hk List.not_mem_nil, h.cur⟩
      · exact h.txn j y (by rwa [← set_txns_ne s _ hj])
    · have key : ∀ j y, (s.set s.nextId (some ⟨a, s.cur, [], []⟩)).txns j = some y →
          k ∈ y.locked → s.txns j = some y := by
        intro j y hy hk
        by_cases hj : j = s.nextId
        · subst hj
          rw [set_txns_self] at hy
          obtain rfl := Option.some.inj hy
          exact absurd hk List.not_mem_nil
        · rwa [← set_txns_ne s _ hj]
      exact h.disjoint j j' y y' k (key j y hy hk) (key j' y' hy' hk') hk hk'
  | @lock i x m k hx hk hf hv =>
    have hok := h.txn i x hx
    refine Wf.set h (h.bound i x hx) ⟨?_, hok.older, hok.same, ?_, ?_, hok.left, hok.snap⟩ ?_
    · intro k' hk'
      rcases List.mem_cons.1 hk' with rfl | hk'
      · exact hv
      · exact hok.unchanged k' hk'
    · exact List.nodup_cons.2 ⟨(P.next_fresh hk).1, hok.nodup⟩
    · intro k' hk'
      rcases List.mem_cons.1 hk' with rfl | hk'
      · exact ⟨_, _, m, hk⟩
      · exact hok.asked k' hk'
    · intro j y k' hj hy hk' hyk
      rcases List.mem_cons.1 hk' with rfl | hk'
      · have := hf j (h.bound j y hy) hj
        rw [Bool.eq_false_iff] at this
        exact this (holds_iff.2 ⟨y, hy, hyk⟩)
      · exact hj (h.disjoint j i y x k' hy hx hyk hk')
  | @skip i x k hx hk hf =>
    have hok := h.txn i x hx
    refine Wf.set h (h.bound i x hx)
      ⟨hok.unchanged, hok.older, hok.same, hok.nodup, hok.asked, ?_, hok.snap⟩
      fun j y k' hj hy hk' hyk => hj (h.disjoint j i y x k' hy hx hyk hk')
    intro k' hk'
    rcases List.mem_cons.1 hk' with rfl | hk'
    · exact ⟨_, _, hk⟩
    · exact hok.left k' hk'
  | @commit i x hx hk hv =>
    have hd := Wf.drop h i
    refine ⟨h.cur.apply (h.txn i x hx).nodup, hd.bound, fun j y hy => ?_, hd.disjoint⟩
    by_cases hj : j = i
    · subst hj
      rw [show _ = none from set_txns_self s _ _] at hy
      cases hy
    · have hy : s.txns j = some y := by rw [← set_txns_ne s none hj]; exact hy
      exact (h.txn j y hy).apply fun k hyk hxk => hj (h.disjoint j i y x k hy hx hyk hxk)
  | @abort i x hx => exact Wf.drop h i

theorem step_wf {P : Prog A K V} {s s' : Db A K V} {e : Event A} (h : s.Wf P)
    (hs : step P s e = some s') : s'.Wf P := (step_iff.1 hs).wf h

/-! ## What a step changes -/

/-- Only a commit changes a row, and it does so as one atomic step: it has the row locked, and it
computed the new row from the row it replaces. -/
theorem Step.row_change {P : Prog A K V} {s s' : Db A K V} {e : Event A} (h : s.Wf P)
    (hs : Step P s e s') (k : K) :
    s'.cur.row k = s.cur.row k ∨
      ∃ i x o, e = .commit i ∧ s.txns i = some x ∧ k ∈ x.locked ∧ x.snap.row k = s.cur.row k ∧
        P.write x.act x.snap x.locked k = some o ∧ s'.cur.row k = o := by
  cases hs with
  | begin a => exact .inl rfl
  | lock => exact .inl rfl
  | skip => exact .inl rfl
  | abort => exact .inl rfl
  | @commit i x hx hk hv =>
    rcases hw : x.written P k with _ | o
    · exact .inl (Txn.apply_row_of_none hw)
    · obtain ⟨hm, hw'⟩ := Txn.mem_of_written hw
      exact .inr ⟨i, x, o, rfl, hx, hm, (h.txn i x hx).locked_row hm, hw',
        Txn.apply_row_of_some hw⟩

theorem Step.ver_le {P : Prog A K V} {s s' : Db A K V} {e : Event A} (hs : Step P s e s') (k : K) :
    s.cur.ver k ≤ s'.cur.ver k := by
  cases hs with
  | commit => exact Txn.le_apply_ver
  | _ => exact Nat.le_refl _

theorem Step.keys_subset {P : Prog A K V} {s s' : Db A K V} {e : Event A} (hs : Step P s e s') :
    s.cur.keys ⊆ s'.cur.keys := by
  cases hs with
  | commit => exact List.subset_append_left _ _
  | _ => exact List.Subset.refl _

/-- A row whose key is not used has never been written. -/
theorem Step.ver_of_not_mem {P : Prog A K V} {s s' : Db A K V} {e : Event A} (hs : Step P s e s')
    {k : K} (hk : k ∉ s'.cur.keys) : s'.cur.ver k = s.cur.ver k := by
  cases hs with
  | @commit i x hx hn hv =>
    have hk : k ∉ s.cur.keys ++ x.locked.filter (· ∉ s.cur.keys) := hk
    rw [List.mem_append, List.mem_filter, not_or] at hk
    rcases hw : x.written P k with _ | o
    · exact Txn.apply_ver_of_none hw
    · exact absurd ⟨(Txn.mem_of_written hw).1, by simpa using hk.1⟩ hk.2
  | _ => rfl

/-- A row that changes has a new version. -/
theorem Step.row_of_ver {P : Prog A K V} {s s' : Db A K V} {e : Event A} (hs : Step P s e s')
    {k : K} (h : s'.cur.ver k = s.cur.ver k) : s'.cur.row k = s.cur.row k := by
  cases hs with
  | @commit i x hx hk hv =>
    rcases hw : x.written P k with _ | o
    · exact Txn.apply_row_of_none hw
    · have hnew : (x.apply P s.cur).ver k = s.cur.ver k := h
      rw [Txn.apply_ver_of_some hw] at hnew
      omega
  | _ => rfl

theorem Step.cur_eq {P : Prog A K V} {s s' : Db A K V} {e : Event A} (hs : Step P s e s')
    (hc : ∀ i, e ≠ .commit i) : s'.cur = s.cur := by
  cases hs with
  | @commit i => exact absurd rfl (hc i)
  | _ => rfl

theorem Step.closed {P : Prog A K V} {s s' : Db A K V} {e : Event A} (hs : Step P s e s') {i : ℕ}
    (he : e = .commit i ∨ e = .abort i) : s'.txns i = none := by
  rcases he with rfl | rfl <;> cases hs <;> exact set_txns_self s i none

theorem Step.nextId_le {P : Prog A K V} {s s' : Db A K V} {e : Event A} (hs : Step P s e s') :
    s.nextId ≤ s'.nextId := by
  cases hs with
  | begin => exact Nat.le_succ _
  | _ => exact Nat.le_refl _

theorem Step.nextId_begin {P : Prog A K V} {s s' : Db A K V} {a : A}
    (hs : Step P s (.begin a) s') : s.nextId < s'.nextId := by
  cases hs with
  | begin => exact Nat.lt_succ_self _

theorem Step.begin_inv {P : Prog A K V} {s s' : Db A K V} {a : A} (hs : Step P s (.begin a) s') :
    s'.txns s.nextId = some ⟨a, s.cur, [], []⟩ ∧ s'.cur = s.cur := by
  cases hs with
  | begin => exact ⟨set_txns_self s _ _, rfl⟩

theorem Step.commit_inv {P : Prog A K V} {s s' : Db A K V} {i : ℕ} (hs : Step P s (.commit i) s') :
    ∃ x, s.txns i = some x ∧ x.asks P = none ∧ P.valid x.act x.snap x.locked = true ∧
      s'.cur = x.apply P s.cur := by
  cases hs with
  | @commit _ x hx hk hv => exact ⟨x, hx, hk, hv, rfl⟩

theorem Step.skip_inv {P : Prog A K V} {s s' : Db A K V} {i : ℕ} (hs : Step P s (.skip i) s') :
    ∃ x k, s.txns i = some x ∧ x.asks P = some (.skipLocked, k) ∧ ¬ s.Free i k ∧
      s'.txns i = some { x with skipped := k :: x.skipped } := by
  cases hs with
  | @skip _ x k hx hk hf => exact ⟨x, k, hx, hk, hf, set_txns_self s i _⟩

/-- A transaction that is open after a step was open before it, and has the same action and
snapshot; or it began in the step. -/
theorem Step.txn_old {P : Prog A K V} {s s' : Db A K V} {e : Event A} (hs : Step P s e s')
    {i : ℕ} {x' : Txn A K V} (hx' : s'.txns i = some x') :
    (∃ x, s.txns i = some x ∧ x'.act = x.act ∧ x'.snap = x.snap ∧
        ((x'.locked = x.locked ∧ x'.skipped = x.skipped) ∨
          (e = .lock i ∧ ∃ m k, x.asks P = some (m, k) ∧ x'.locked = k :: x.locked ∧
            x'.skipped = x.skipped) ∨
          (e = .skip i ∧ ∃ k, x.asks P = some (.skipLocked, k) ∧ ¬ s.Free i k ∧
            x'.locked = x.locked ∧ x'.skipped = k :: x.skipped))) ∨
      (∃ a, e = .begin a ∧ i = s.nextId ∧ x' = ⟨a, s.cur, [], []⟩) := by
  cases hs with
  | begin a =>
    by_cases hi : i = s.nextId
    · subst hi
      rw [show _ = some _ from set_txns_self s _ _] at hx'
      exact .inr ⟨a, rfl, rfl, (Option.some.inj hx').symm⟩
    · have hx : s.txns i = some x' := by rw [← set_txns_ne s _ hi]; exact hx'
      exact .inl ⟨x', hx, rfl, rfl, .inl ⟨rfl, rfl⟩⟩
  | @lock j x m k hx hk hf hv =>
    by_cases hi : i = j
    · subst hi
      rw [set_txns_self] at hx'
      obtain rfl := Option.some.inj hx'
      exact .inl ⟨x, hx, rfl, rfl, .inr (.inl ⟨rfl, m, k, hk, rfl, rfl⟩)⟩
    · rw [set_txns_ne s _ hi] at hx'
      exact .inl ⟨x', hx', rfl, rfl, .inl ⟨rfl, rfl⟩⟩
  | @skip j x k hx hk hf =>
    by_cases hi : i = j
    · subst hi
      rw [set_txns_self] at hx'
      obtain rfl := Option.some.inj hx'
      exact .inl ⟨x, hx, rfl, rfl, .inr (.inr ⟨rfl, k, hk, hf, rfl, rfl⟩)⟩
    · rw [set_txns_ne s _ hi] at hx'
      exact .inl ⟨x', hx', rfl, rfl, .inl ⟨rfl, rfl⟩⟩
  | @commit j x hx hk hv =>
    by_cases hi : i = j
    · subst hi
      rw [show _ = none from set_txns_self s _ _] at hx'
      cases hx'
    · have hy : s.txns i = some x' := by rw [← set_txns_ne s none hi]; exact hx'
      exact .inl ⟨x', hy, rfl, rfl, .inl ⟨rfl, rfl⟩⟩
  | @abort j x hx =>
    by_cases hi : i = j
    · subst hi
      rw [set_txns_self] at hx'
      cases hx'
    · rw [set_txns_ne s _ hi] at hx'
      exact .inl ⟨x', hx', rfl, rfl, .inl ⟨rfl, rfl⟩⟩

/-- A transaction that neither commits nor aborts stays open, with the rows it has locked; once it
asks for nothing more it stays as it is. -/
theorem Step.txn_stays {P : Prog A K V} {s s' : Db A K V} {e : Event A} (hs : Step P s e s') {i : ℕ}
    {x : Txn A K V} (hx : s.txns i = some x) (hb : i < s.nextId) (hc : e ≠ .commit i)
    (ha : e ≠ .abort i) : ∃ x', s'.txns i = some x' ∧ x'.act = x.act ∧ x'.snap = x.snap ∧
      x.locked ⊆ x'.locked ∧ x.skipped ⊆ x'.skipped ∧ (x.asks P = none → x' = x) := by
  have same : ∀ {t : ℕ → Option (Txn A K V)}, t i = some x → ∃ x', t i = some x' ∧
      x'.act = x.act ∧ x'.snap = x.snap ∧ x.locked ⊆ x'.locked ∧ x.skipped ⊆ x'.skipped ∧
        (x.asks P = none → x' = x) :=
    fun h => ⟨x, h, rfl, rfl, List.Subset.refl _, List.Subset.refl _, fun _ => rfl⟩
  cases hs with
  | begin a => exact same ((set_txns_ne s _ (Nat.ne_of_lt hb)).trans hx)
  | @lock j y m k hy hk hf hv =>
    by_cases hi : i = j
    · subst hi
      obtain rfl := Option.some.inj (hx.symm.trans hy)
      exact ⟨_, set_txns_self s _ _, rfl, rfl, List.subset_cons_self _ _, List.Subset.refl _,
        fun hn => absurd (hn.symm.trans hk) nofun⟩
    · exact same ((set_txns_ne s _ hi).trans hx)
  | @skip j y k hy hk hf =>
    by_cases hi : i = j
    · subst hi
      obtain rfl := Option.some.inj (hx.symm.trans hy)
      exact ⟨_, set_txns_self s _ _, rfl, rfl, List.Subset.refl _, List.subset_cons_self _ _,
        fun hn => absurd (hn.symm.trans hk) nofun⟩
    · exact same ((set_txns_ne s _ hi).trans hx)
  | @commit j y hy hk hv =>
    have hi : i ≠ j := fun he => hc (he ▸ rfl)
    exact same ((set_txns_ne s none hi).trans hx)
  | @abort j y hy =>
    have hi : i ≠ j := fun he => ha (he ▸ rfl)
    exact same ((set_txns_ne s none hi).trans hx)

end RowStore
