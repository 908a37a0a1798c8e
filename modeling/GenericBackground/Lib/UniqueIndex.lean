import Mathlib.Data.Nat.Notation
import Mathlib.Logic.Function.Basic
import Mathlib.Order.Basic
import Mathlib.Tactic.Common

/-!
# A partial unique index under snapshots

Rows with a partial unique index, under REPEATABLE READ: `key v` is the index key of a row, `none`
if the index leaves the row out. A transaction reads its snapshot and its own writes (`Txn.view`).
The index is checked by each write against the rows as they are now (`Db.latest`), seen by the
transaction or not: the write waits while another open transaction has a row of the same key in
work, and fails if there is a committed one (`Db.conflict`).

No two committed rows have one index key, in any run (`Inv.step`, `Inv.unique`). The index does not
look at the view: it can fail a write on a row that the transaction does not see
(`conflict_unseen`).
-/

namespace UniqueIndex

/-- An open transaction: the rows and versions it has read, the rows it has locked, and its own
writes. -/
structure Txn (K V : Type*) where
  snap : K → Option V
  ver : K → ℕ
  locked : List K
  own : K → Option (Option V)

/-- The committed rows and their versions, the keys used so far, and the open transactions. -/
structure Db (K V : Type*) where
  row : K → Option V
  ver : K → ℕ
  keys : List K
  txns : ℕ → Option (Txn K V)
  nextId : ℕ

inductive Event (K V : Type*) where
  | begin
  | lock (i : ℕ) (ks : List K)
  | write (i : ℕ) (k : K) (o : Option V)
  | commit (i : ℕ)
  | abort (i : ℕ)

variable {K V I : Type*}

/-- What the transaction sees. -/
def Txn.view (x : Txn K V) (k : K) : Option V := (x.own k).getD (x.snap k)

/-- The row that the index check of the transaction meets. -/
def Db.latest (s : Db K V) (x : Txn K V) (k : K) : Option V := (x.own k).getD (s.row k)

def Db.set (s : Db K V) (i : ℕ) (x : Option (Txn K V)) : Db K V :=
  { s with txns := Function.update s.txns i x }

/-- No transaction is open. -/
def Db.init (row : K → Option V) (keys : List K) : Db K V :=
  ⟨row, fun _ => 0, keys, fun _ => none, 0⟩

/-! ## The invariant -/

/-- No two rows have one index key. -/
def Unique (key : V → Option I) (f : K → Option V) : Prop :=
  ∀ k k' v v' a, f k = some v → f k' = some v' → key v = some a → key v' = some a → k = k'

/-- What the row locks and the index keep of an open transaction `x` named `i`. -/
structure Txn.Fits (key : V → Option I) (s : Db K V) (i : ℕ) (x : Txn K V) : Prop where
  written : ∀ k, x.own k ≠ none → k ∈ x.locked
  used : ∀ k ∈ x.locked, k ∈ s.keys
  snapped : ∀ k v, x.snap k = some v → k ∈ s.keys
  locked : ∀ k ∈ x.locked, s.ver k = x.ver k
  older : ∀ k, x.ver k ≤ s.ver k
  same : ∀ k, s.ver k = x.ver k → x.snap k = s.row k
  unique : Unique key (s.latest x)
  disjoint : ∀ j y k, j ≠ i → s.txns j = some y → k ∈ x.locked → k ∉ y.locked
  apart : ∀ j y k k' v v' a, j ≠ i → s.txns j = some y → x.own k = some (some v) →
    y.own k' = some (some v') → key v = some a → key v' ≠ some a

/-- What the row locks and the index keep. -/
structure Inv (key : V → Option I) (s : Db K V) : Prop where
  present : ∀ k v, s.row k = some v → k ∈ s.keys
  unused : ∀ k, k ∉ s.keys → s.ver k = 0
  unique : Unique key s.row
  named : ∀ i x, s.txns i = some x → i < s.nextId
  fits : ∀ i x, s.txns i = some x → x.Fits key s i

theorem Inv.init {key : V → Option I} {row : K → Option V} {keys : List K}
    (hp : ∀ k v, row k = some v → k ∈ keys) (hu : Unique key row) :
    Inv key (Db.init row keys) where
  present := hp
  unused _ _ := rfl
  unique := hu
  named _ _ h := by cases h
  fits _ _ h := by cases h

section

variable {key : V → Option I} {s s' : Db K V} {i : ℕ} {x : Txn K V} {k : K}

@[simp] theorem set_txns_self (s : Db K V) (i : ℕ) (x : Option (Txn K V)) :
    (s.set i x).txns i = x := by simp [Db.set]

@[simp] theorem set_txns_ne (s : Db K V) {i j : ℕ} (x : Option (Txn K V)) (h : j ≠ i) :
    (s.set i x).txns j = s.txns j := by simp [Db.set, h]

theorem latest_of_none (h : x.own k = none) : s.latest x k = s.row k := by simp [Db.latest, h]

theorem latest_of_some {o : Option V} (h : x.own k = some o) : s.latest x k = o := by
  simp [Db.latest, h]

theorem Inv.latest_key (hi : Inv key s) (hx : s.txns i = some x) {v : V}
    (h : s.latest x k = some v) : k ∈ s.keys := by
  cases ho : x.own k with
  | none => exact hi.present k v (by rwa [latest_of_none ho] at h)
  | some o =>
    have hf := hi.fits i x hx
    exact hf.used k (hf.written k (by simp [ho]))

theorem Inv.view_key (hi : Inv key s) (hx : s.txns i = some x) {v : V}
    (h : x.view k = some v) : k ∈ s.keys := by
  have hf := hi.fits i x hx
  cases ho : x.own k with
  | none => exact hf.snapped k v (by simpa [Txn.view, ho] using h)
  | some o => exact hf.used k (hf.written k (by simp [ho]))

/-- One transaction moves: the rows stay, and it is enough to look at the transaction itself. -/
theorem Inv.move (hi : Inv key s) (hrow : s'.row = s.row) (hver : s'.ver = s.ver)
    (hkeys : ∀ k ∈ s.keys, k ∈ s'.keys) (hnext : s.nextId ≤ s'.nextId)
    (htxns : ∀ j, j ≠ i → s'.txns j = s.txns j)
    (hx : ∀ x, s'.txns i = some x → i < s'.nextId ∧ x.Fits key s' i) : Inv key s' where
  present k v h := hkeys k (hi.present k v (hrow ▸ h))
  unused k h := by
    rw [hver]
    exact hi.unused k fun hk => h (hkeys k hk)
  unique := hrow ▸ hi.unique
  named j y hy := by
    by_cases hj : j = i
    · subst hj
      exact (hx y hy).1
    · rw [htxns j hj] at hy
      exact Nat.lt_of_lt_of_le (hi.named j y hy) hnext
  fits j y hy := by
    by_cases hj : j = i
    · subst hj
      exact (hx y hy).2
    · rw [htxns j hj] at hy
      have hf := hi.fits j y hy
      refine ⟨hf.written, fun k hk => hkeys k (hf.used k hk), fun k v h =>
        hkeys k (hf.snapped k v h), by rw [hver]; exact hf.locked, by rw [hver]; exact hf.older,
        by rw [hver, hrow]; exact hf.same, ?_, fun j' z k hj' hz hk => ?_,
        fun j' z k k' v v' a hj' hz hk hk' ha => ?_⟩
      · have hl : s'.latest y = s.latest y := by unfold Db.latest; rw [hrow]
        rw [hl]
        exact hf.unique
      -- the transaction that moves has looked at the others
      · by_cases h : j' = i
        · subst h
          intro hz'
          exact (hx z hz).2.disjoint j y k hj (by rw [htxns j hj]; exact hy) hz' hk
        · exact hf.disjoint j' z k hj' (by rwa [htxns j' h] at hz) hk
      · by_cases h : j' = i
        · subst h
          intro ha'
          exact (hx z hz).2.apart j y k' k v' v a hj (by rw [htxns j hj]; exact hy) hk' hk ha' ha
        · exact hf.apart j' z k k' v v' a hj' (by rwa [htxns j' h] at hz) hk hk' ha

theorem Inv.begin (hi : Inv key s) :
    Inv key { s.set s.nextId (some ⟨s.row, s.ver, [], fun _ => none⟩) with
      nextId := s.nextId + 1 } := by
  refine hi.move (i := s.nextId) rfl rfl (fun _ h => h) (Nat.le_succ _)
    (fun j hj => set_txns_ne s _ hj) fun x hx => ?_
  obtain rfl := Option.some.inj ((set_txns_self s _ _).symm.trans hx)
  refine ⟨Nat.lt_succ_self _, ⟨fun k h => absurd rfl h, ?_, hi.present, ?_, fun _ => Nat.le_refl _,
    fun _ _ => rfl, ?_, ?_, fun _ _ _ _ _ _ _ _ _ h => by cases h⟩⟩
  · simp
  · simp
  · exact hi.unique
  · simp

theorem Inv.abort (hi : Inv key s) : Inv key (s.set i none) :=
  hi.move (i := i) rfl rfl (fun _ h => h) (Nat.le_refl _) (fun _ hj => set_txns_ne s _ hj)
    fun x hx => by simp at hx

/-- What a transaction has written becomes the committed row: it was unique among the rows as they
are now, and no other transaction has it locked. -/
theorem Inv.commit (hi : Inv key s) (hx : s.txns i = some x) : Inv key { s.set i none with
    row := s.latest x
    ver := fun k => if (x.own k).isSome then s.ver k + 1 else s.ver k } := by
  have hf := hi.fits i x hx
  have old : ∀ {j y}, (s.set i none).txns j = some y → j ≠ i ∧ s.txns j = some y := by
    intro j y hy
    by_cases hj : j = i
    · subst hj
      simp at hy
    · exact ⟨hj, by rwa [set_txns_ne s _ hj] at hy⟩
  -- a row that another transaction has locked is not among those written
  have kept : ∀ {j y k}, j ≠ i → s.txns j = some y → k ∈ y.locked → x.own k = none := by
    intro j y k hj hy hk
    by_contra ho
    exact hf.disjoint j y k hj hy (hf.written k ho) hk
  refine ⟨fun k v h => hi.latest_key hx h, fun k hk => ?_, hf.unique,
    fun j y hy => hi.named j y (old hy).2, fun j y hy => ?_⟩
  · have ho : x.own k = none := by
      by_contra ho
      exact hk (hf.used k (hf.written k ho))
    simpa [ho] using hi.unused k hk
  · obtain ⟨hj, hy⟩ := old hy
    have hg := hi.fits j y hy
    have hle : ∀ k, s.ver k ≤ if (x.own k).isSome then s.ver k + 1 else s.ver k := by
      intro k
      split_ifs <;> omega
    refine ⟨hg.written, hg.used, hg.snapped, fun k hk => ?_,
      fun k => Nat.le_trans (hg.older k) (hle k), fun k h => ?_,
      fun k k' v v' a h h' ha ha' => ?_, fun j' z k hj' hz => hg.disjoint j' z k hj' (old hz).2,
      fun j' z k k' v v' a hj' hz => hg.apart j' z k k' v v' a hj' (old hz).2⟩
    · simpa [kept hj hy hk] using hg.locked k hk
    · cases ho : x.own k with
      | none =>
        simp only [ho, Option.isSome_none, Bool.false_eq_true, if_false] at h
        show y.snap k = s.latest x k
        rw [latest_of_none ho]
        exact hg.same k h
      | some o =>
        -- the version has passed what `y` has read
        have := hg.older k
        simp only [ho, Option.isSome_some, if_true] at h
        omega
    · -- the rows as `y` meets them: its own, those of `x`, and the committed ones
      have split : ∀ {k v}, ((y.own k).getD (s.latest x k)) = some v →
          s.latest y k = some v ∧ (x.own k = none ∨ y.own k ≠ none) ∨
            x.own k = some (some v) ∧ y.own k = none := by
        intro k v hv
        cases hy' : y.own k with
        | some o => exact .inl ⟨by simpa [Db.latest, hy'] using hv, .inr (by simp)⟩
        | none =>
          cases hx' : x.own k with
          | none => exact .inl ⟨by simpa [Db.latest, hy', hx'] using hv, .inl rfl⟩
          | some o => exact .inr ⟨by simpa [Db.latest, hy', hx'] using hv, rfl⟩
      -- a row of `y` and a row of `x` do not have one key
      have cross : ∀ {k k' v v' a}, s.latest y k = some v → (x.own k = none ∨ y.own k ≠ none) →
          x.own k' = some (some v') → key v = some a → key v' = some a → k = k' := by
        intro k k' v v' a h ho hk' ha ha'
        cases hy' : y.own k with
        | some o =>
          rw [latest_of_some hy'] at h
          subst h
          exact absurd ha (hf.apart j y k' k v' v a hj hy hk' hy' ha')
        | none =>
          have ho : x.own k = none := ho.resolve_right (by simp [hy'])
          rw [latest_of_none hy'] at h
          exact hf.unique k k' v v' a (by rwa [latest_of_none ho]) (latest_of_some hk') ha ha'
      rcases split h with ⟨h, ho⟩ | ⟨h, -⟩ <;> rcases split h' with ⟨h', ho'⟩ | ⟨h', -⟩
      · exact hg.unique k k' v v' a h h' ha ha'
      · exact cross h ho h' ha ha'
      · exact (cross h' ho' h ha' ha).symm
      · exact hf.unique k k' v v' a (latest_of_some h) (latest_of_some h') ha ha'

end

/-! ## Steps -/

variable [DecidableEq K] [DecidableEq I] (key : V → Option I)

/-- The row has index key `a`. -/
def has (a : I) (o : Option V) : Bool := o.any fun v => key v = some a

/-- The transaction has the row locked, or can lock it: no other transaction has, and the row is as
its snapshot has it. -/
def Db.Lockable (s : Db K V) (i : ℕ) (x : Txn K V) (k : K) : Prop :=
  k ∈ x.locked ∨ (s.ver k = x.ver k ∧
    ∀ j < s.nextId, j ≠ i → (s.txns j).all (fun y => k ∉ y.locked) = true)

instance (s : Db K V) (i : ℕ) (x : Txn K V) (k : K) : Decidable (s.Lockable i x k) := by
  unfold Db.Lockable; infer_instance

/-- Another open transaction has written a row that has index key `a`, before or after it. -/
def Db.Busy (s : Db K V) (i : ℕ) (a : I) : Prop :=
  ∃ j < s.nextId, j ≠ i ∧ (s.txns j).any (fun y => s.keys.any fun k =>
    (y.own k).isSome && (has key a (s.row k) || has key a (s.latest y k))) = true

instance (s : Db K V) (i : ℕ) (a : I) : Decidable (s.Busy key i a) := by
  unfold Db.Busy; infer_instance

/-- Another row than `k` has index key `a`. -/
def Db.conflict (s : Db K V) (x : Txn K V) (k : K) (a : I) : Bool :=
  s.keys.any fun k' => k' ≠ k ∧ has key a (s.latest x k')

/-- The index takes the row: nothing is in work for its key, and nothing conflicts. -/
def Db.Takes (s : Db K V) (i : ℕ) (x : Txn K V) (k : K) (o : Option V) : Prop :=
  (o.bind key).all (fun a => ¬ s.Busy key i a ∧ s.conflict key x k a = false) = true

instance (s : Db K V) (i : ℕ) (x : Txn K V) (k : K) (o : Option V) :
    Decidable (s.Takes key i x k o) := by unfold Db.Takes; infer_instance

/-- One step of the database. A transaction locks rows that it sees. -/
def step (s : Db K V) : Event K V → Option (Db K V)
  | .begin => some { s.set s.nextId (some ⟨s.row, s.ver, [], fun _ => none⟩) with
      nextId := s.nextId + 1 }
  | .lock i ks => (s.txns i).bind fun x =>
    if ∀ k ∈ ks, s.Lockable i x k ∧ (x.view k).isSome = true then
      some (s.set i (some { x with locked := ks ++ x.locked }))
    else none
  | .write i k o => (s.txns i).bind fun x =>
    if s.Lockable i x k ∧ s.Takes key i x k o then
      some { s.set i (some { x with
        locked := k :: x.locked, own := Function.update x.own k (some o) }) with
          keys := k :: s.keys }
    else none
  | .commit i => (s.txns i).map fun x => { s.set i none with
      row := s.latest x
      ver := fun k => if (x.own k).isSome then s.ver k + 1 else s.ver k }
  | .abort i => (s.txns i).map fun _ => s.set i none

inductive Step (s : Db K V) : Event K V → Db K V → Prop
  | begin : Step s .begin { s.set s.nextId (some ⟨s.row, s.ver, [], fun _ => none⟩) with
      nextId := s.nextId + 1 }
  | lock {i : ℕ} {x : Txn K V} {ks : List K} (hx : s.txns i = some x)
      (hl : ∀ k ∈ ks, s.Lockable i x k ∧ (x.view k).isSome = true) :
      Step s (.lock i ks) (s.set i (some { x with locked := ks ++ x.locked }))
  | write {i : ℕ} {x : Txn K V} {k : K} {o : Option V} (hx : s.txns i = some x)
      (hl : s.Lockable i x k) (ht : s.Takes key i x k o) :
      Step s (.write i k o) { s.set i (some { x with
        locked := k :: x.locked, own := Function.update x.own k (some o) }) with
          keys := k :: s.keys }
  | commit {i : ℕ} {x : Txn K V} (hx : s.txns i = some x) :
      Step s (.commit i) { s.set i none with
        row := s.latest x
        ver := fun k => if (x.own k).isSome then s.ver k + 1 else s.ver k }
  | abort {i : ℕ} {x : Txn K V} (hx : s.txns i = some x) : Step s (.abort i) (s.set i none)

variable {key} {s s' : Db K V} {e : Event K V} {i : ℕ} {x : Txn K V} {k : K} {a : I}

theorem step_iff : step key s e = some s' ↔ Step key s e s' := by
  constructor
  · intro h
    cases e with
    | begin => obtain rfl := Option.some.inj h; exact .begin
    | lock i ks =>
      obtain ⟨x, hx, h⟩ := Option.bind_eq_some_iff.1 h
      split_ifs at h with hl
      obtain rfl := Option.some.inj h
      exact .lock hx hl
    | write i k o =>
      obtain ⟨x, hx, h⟩ := Option.bind_eq_some_iff.1 h
      split_ifs at h with hl
      obtain rfl := Option.some.inj h
      exact .write hx hl.1 hl.2
    | commit i =>
      obtain ⟨x, hx, rfl⟩ := Option.map_eq_some_iff.1 h
      exact .commit hx
    | abort i =>
      obtain ⟨x, hx, rfl⟩ := Option.map_eq_some_iff.1 h
      exact .abort hx
  · intro h
    cases h with
    | begin => rfl
    | lock hx hl =>
      rw [step, hx, Option.bind_some, if_pos hl]
    | write hx hl ht => simp [step, hx, hl, ht]
    | commit hx => simp [step, hx]
    | abort hx => simp [step, hx]

/-- The transaction that takes the step. -/
def Event.txn (s : Db K V) : Event K V → ℕ
  | .begin => s.nextId
  | .lock i _ => i
  | .write i _ _ => i
  | .commit i => i
  | .abort i => i

theorem step_txns_ne (h : step key s e = some s') {j : ℕ} (hj : j ≠ e.txn s) :
    s'.txns j = s.txns j := by
  cases step_iff.1 h with
  | begin => exact set_txns_ne s _ hj
  | lock _ _ => exact set_txns_ne s _ hj
  | write _ _ _ => exact set_txns_ne s _ hj
  | commit _ => exact set_txns_ne s _ hj
  | abort _ => exact set_txns_ne s _ hj

theorem step_keys (h : step key s e = some s') (hk : k ∈ s'.keys) :
    k ∈ s.keys ∨ ∃ i o, e = .write i k o := by
  cases step_iff.1 h with
  | begin => exact .inl hk
  | lock _ _ => exact .inl hk
  | @write i _ k' o _ _ _ => exact (List.mem_cons.1 hk).elim (fun h => .inr ⟨i, o, by rw [h]⟩) .inl
  | commit _ => exact .inl hk
  | abort _ => exact .inl hk

/-! ## Every step keeps the invariant -/

theorem has_iff {o : Option V} : has key a o = true ↔ ∃ v, o = some v ∧ key v = some a := by
  simp [has, Option.any_eq_true]

theorem conflict_iff (hi : Inv key s) (hx : s.txns i = some x) : s.conflict key x k a = true ↔
    ∃ k' v, k' ≠ k ∧ s.latest x k' = some v ∧ key v = some a := by
  simp only [Db.conflict, List.any_eq_true, decide_eq_true_eq, has_iff]
  constructor
  · rintro ⟨k', -, hne, v, hv, ha⟩
    exact ⟨k', v, hne, hv, ha⟩
  · rintro ⟨k', v, hne, hv, ha⟩
    exact ⟨k', hi.latest_key hx hv, hne, v, hv, ha⟩

omit [DecidableEq K] in
theorem not_busy {j : ℕ} {y : Txn K V} {v : V} (hi : Inv key s) (hb : ¬ s.Busy key i a)
    (hj : j ≠ i) (hy : s.txns j = some y) (hk : y.own k = some (some v)) : key v ≠ some a := by
  intro ha
  have hf := hi.fits j y hy
  refine hb ⟨j, hi.named j y hy, hj, ?_⟩
  rw [hy]
  refine List.any_eq_true.2 ⟨k, hf.used k (hf.written k (by simp [hk])), ?_⟩
  simp [hk, has, Db.latest, ha]

omit [DecidableEq I] in
theorem Lockable.ver (hf : x.Fits key s i) (hl : s.Lockable i x k) : s.ver k = x.ver k :=
  hl.elim (hf.locked k) And.left

omit [DecidableEq I] in
theorem Txn.Fits.view_of_lockable (hf : x.Fits key s i) (hl : s.Lockable i x k) :
    x.view k = s.latest x k := by
  simp only [Txn.view, Db.latest, hf.same k (Lockable.ver hf hl)]

omit [DecidableEq I] in
theorem Lockable.free (hi : Inv key s) (hx : s.txns i = some x) (hl : s.Lockable i x k) {j : ℕ}
    {y : Txn K V} (hj : j ≠ i) (hy : s.txns j = some y) : k ∉ y.locked := by
  cases hl with
  | inl hl => exact (hi.fits i x hx).disjoint j y k hj hy hl
  | inr hl =>
    have := hl.2 j (hi.named j y hy) hj
    simpa [hy] using this

omit [DecidableEq I] in
theorem Lockable.of_unused (hi : Inv key s) (hx : s.txns i = some x) (hk : k ∉ s.keys) :
    s.Lockable i x k := by
  refine .inr ⟨?_, fun j _ _ => ?_⟩
  · have := (hi.fits i x hx).older k
    have := hi.unused k hk
    omega
  · cases hy : s.txns j with
    | none => rfl
    | some y => simpa using fun h => hk ((hi.fits j y hy).used k h)

omit [DecidableEq I] in
theorem Inv.lock (hi : Inv key s) (hx : s.txns i = some x) {ks : List K}
    (hl : ∀ k ∈ ks, s.Lockable i x k) (hk : ∀ k ∈ ks, k ∈ s.keys) :
    Inv key (s.set i (some { x with locked := ks ++ x.locked })) := by
  have hf := hi.fits i x hx
  have hver : ∀ k ∈ ks, s.ver k = x.ver k := fun k h => Lockable.ver hf (hl k h)
  refine hi.move (i := i) rfl rfl (fun _ h => h) (Nat.le_refl _) (fun j hj => set_txns_ne s _ hj)
    fun z hz => ?_
  obtain rfl := Option.some.inj ((set_txns_self s _ _).symm.trans hz)
  refine ⟨hi.named i x hx, fun k h => List.mem_append_right _ (hf.written k h), fun k h => ?_,
    hf.snapped, fun k h => ?_, hf.older, hf.same, hf.unique, fun j y k hj hy h => ?_,
    fun j y k₁ k₂ v v' a hj hy => hf.apart j y k₁ k₂ v v' a hj (by rwa [set_txns_ne s _ hj] at hy)⟩
  · exact (List.mem_append.1 h).elim (hk k) (hf.used k)
  · exact (List.mem_append.1 h).elim (hver k) (hf.locked k)
  · rw [set_txns_ne s _ hj] at hy
    exact (List.mem_append.1 h).elim (fun h => Lockable.free hi hx (hl k h) hj hy)
      (hf.disjoint j y k hj hy)

/-- The rows as the transaction meets them stay unique when the index takes one more. -/
theorem Takes.unique (hi : Inv key s) (hx : s.txns i = some x) {o : Option V}
    (ht : s.Takes key i x k o) : Unique key (Function.update (s.latest x) k o) := by
  have hf := (hi.fits i x hx).unique
  have free : ∀ {v a k' v'}, o = some v → key v = some a → k' ≠ k → s.latest x k' = some v' →
      key v' ≠ some a := by
    intro v a k' v' ho ha hk' hv' ha'
    subst ho
    have hc : s.conflict key x k a = false := by
      have := ht
      simp only [Db.Takes, Option.bind_some, ha, Option.all_some, decide_eq_true_eq] at this
      exact this.2
    have := (conflict_iff hi hx).2 ⟨k', v', hk', hv', ha'⟩
    rw [hc] at this
    cases this
  intro k₁ k₂ v v' a h h' ha ha'
  by_cases h1 : k₁ = k <;> by_cases h2 : k₂ = k
  · rw [h1, h2]
  · subst h1
    rw [Function.update_self] at h
    rw [Function.update_of_ne h2] at h'
    exact absurd ha' (free h ha h2 h')
  · subst h2
    rw [Function.update_self] at h'
    rw [Function.update_of_ne h1] at h
    exact absurd ha (free h' ha' h1 h)
  · rw [Function.update_of_ne h1] at h
    rw [Function.update_of_ne h2] at h'
    exact hf k₁ k₂ v v' a h h' ha ha'

theorem Inv.write (hi : Inv key s) (hx : s.txns i = some x) {o : Option V}
    (hl : s.Lockable i x k) (ht : s.Takes key i x k o) :
    Inv key { s.set i (some { x with
      locked := k :: x.locked, own := Function.update x.own k (some o) }) with
        keys := k :: s.keys } := by
  have hf := hi.fits i x hx
  have hver := Lockable.ver hf hl
  refine hi.move (i := i) rfl rfl (fun _ h => List.mem_cons_of_mem _ h) (Nat.le_refl _)
    (fun j hj => set_txns_ne s _ hj) fun z hz => ?_
  obtain rfl := Option.some.inj ((set_txns_self s _ _).symm.trans hz)
  refine ⟨hi.named i x hx, fun k' h => ?_, fun k' h => ?_,
    fun k' v h => List.mem_cons_of_mem _ (hf.snapped k' v h), fun k' h => ?_, hf.older, hf.same,
    ?_, fun j y k' hj hy h => ?_, fun j y k₁ k₂ v v' a hj hy h h' ha => ?_⟩
  · by_cases hk : k' = k
    · simp [hk]
    · have h : x.own k' ≠ none := by simpa [hk] using h
      exact List.mem_cons_of_mem _ (hf.written k' h)
  · rcases List.mem_cons.1 h with rfl | h
    · exact List.mem_cons_self
    · exact List.mem_cons_of_mem _ (hf.used k' h)
  · rcases List.mem_cons.1 h with rfl | h
    · exact hver
    · exact hf.locked k' h
  · have hlatest : (fun k' => (Function.update x.own k (some o) k').getD (s.row k')) =
        Function.update (s.latest x) k o := by
      funext k'
      by_cases hk : k' = k
      · subst hk
        simp
      · simp [hk, Db.latest]
    have := Takes.unique hi hx ht
    rw [← hlatest] at this
    exact this
  · rw [show _ = s.txns j from set_txns_ne s _ hj] at hy
    rcases List.mem_cons.1 h with rfl | h
    · exact Lockable.free hi hx hl hj hy
    · exact hf.disjoint j y k' hj hy h
  · rw [show _ = s.txns j from set_txns_ne s _ hj] at hy
    by_cases hk : k₁ = k
    · subst hk
      obtain rfl : o = some v := by simpa using h
      simp only [Db.Takes, Option.bind_some, ha, Option.all_some, decide_eq_true_eq] at ht
      exact not_busy hi ht.1 hj hy h'
    · have h : x.own k₁ = some (some v) := by simpa [hk] using h
      exact hf.apart j y k₁ k₂ v v' a hj hy h h' ha

/-- **One step.** The committed rows stay unique, and every open transaction stays apart. -/
theorem Inv.step (hi : Inv key s) (h : step key s e = some s') : Inv key s' := by
  cases step_iff.1 h with
  | begin => exact hi.begin
  | lock hx hl =>
    refine hi.lock hx (fun k hk => (hl k hk).1) fun k hk => ?_
    obtain ⟨v, hv⟩ := Option.isSome_iff_exists.1 (hl k hk).2
    exact hi.view_key hx hv
  | write hx hl ht => exact hi.write hx hl ht
  | commit hx => exact hi.commit hx
  | abort hx => exact hi.abort

/-- A conflict with a row that the transaction has not written is one with a committed row. -/
theorem conflict_unseen (hi : Inv key s) (hx : s.txns i = some x)
    (hview : ∀ k v, x.view k = some v → key v ≠ some a) (hc : s.conflict key x k a = true) :
    ∃ k' v, k' ≠ k ∧ x.own k' = none ∧ s.row k' = some v ∧ key v = some a := by
  obtain ⟨k', v, hne, hv, ha⟩ := (conflict_iff hi hx).1 hc
  cases ho : x.own k' with
  | none => exact ⟨k', v, hne, ho, by rwa [latest_of_none ho] at hv, ha⟩
  | some o =>
    rw [latest_of_some ho] at hv
    exact absurd ha (hview k' v (by simp [Txn.view, ho, hv]))

end UniqueIndex
