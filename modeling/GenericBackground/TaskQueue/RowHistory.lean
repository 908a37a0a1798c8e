import GenericBackground.TaskQueue.StateMachine

/-!
# The history of a row

Transactions interleave, but each writes a row under the row's lock and from the version that its
snapshot holds. So a run makes of a row what the statements of the transactions that committed make
of it, one transaction after the other, in the order of the commits (`row_history`); what an aborted
transaction has done is gone, and no statement has worked on a stale row.

What statements put out as they go through is read off along the history (`outputs`).

An id is drawn from the sequence of the table once, so a history creates its row at most once, and
before anything else (`created_once`); what every statement on a task keeps is then kept from its
creation on (`outputs_task`).

`phase_data` is a JSON blob that `store_phase_data` reads, merges its values into and writes back.
By the history no such write undoes another one (`phase_data_lookup`).
-/

namespace GenericTaskQueue

open RowStore Lts

variable {reg : Registry} {s s' : Sys} {ev : Ev} {k : TaskId}

/-! ## What commits do to a row -/

/-- The statements that a step runs on row `k`: those of the transaction that commits, if it has
locked the row. -/
def Sys.rowActs (reg : Registry) (k : TaskId) (s : Sys) : Ev → List RowAct
  | .db (.commit i) => (s.db.txns i).elim [] fun x =>
      if k ∈ x.locked then x.act.acts reg x.snap x.locked k else []
  | _ => []

/-- The statements that a run has run on row `k`, in the order of the commits. -/
def history (reg : Registry) (k : TaskId) (s : Sys) (es : List Ev) : List RowAct :=
  emitted (Sys.step reg) (Sys.rowActs reg k) s es

theorem rowActs_commit {i : ℕ} {x : Txn Tx TaskId Task} (hx : s.db.txns i = some x) :
    s.rowActs reg k (.db (.commit i)) =
      if k ∈ x.locked then x.act.acts reg x.snap x.locked k else [] := by
  show (s.db.txns i).elim [] _ = _
  rw [hx]
  rfl

theorem mem_rowActs {a : RowAct} (h : a ∈ s.rowActs reg k ev) :
    ∃ i x, ev = .db (.commit i) ∧ s.db.txns i = some x ∧ k ∈ x.locked ∧
      s.rowActs reg k ev = x.act.acts reg x.snap x.locked k := by
  cases ev with
  | db e => cases e with
    | commit i =>
      rcases hx : s.db.txns i with _ | x
      · simp [Sys.rowActs, hx] at h
      · rw [rowActs_commit hx] at h ⊢
        split_ifs at h ⊢ with hk
        · exact ⟨i, x, rfl, hx, hk, rfl⟩
        · cases h
    | _ => cases h
  | _ => cases h

theorem runActs_flag {acts : List RowAct} {b b' : Bool} {o o' : Option Task}
    (h : runActs reg acts (b, o) = .ok (b', o')) (c : Bool) :
    ∃ c', runActs reg acts (c, o) = .ok (c', o') := by
  induction acts generalizing b c o with
  | nil =>
    obtain ⟨-, rfl⟩ := Prod.mk.inj (Except.ok.inj h)
    exact ⟨c, rfl⟩
  | cons a acts ih =>
    obtain ⟨⟨b₁, o₁⟩, hq, hrest⟩ := runActs_cons h
    obtain ⟨c', hc'⟩ := ih hrest (if a.selects o then c || !a.lockOnly else c)
    refine ⟨c', ?_⟩
    show (a.exec reg (c, o)).bind (runActs reg acts) = _
    unfold RowAct.exec
    rcases RowAct.exec_run hq with ⟨hs, hr, -⟩ | ⟨hs, heq⟩
    · rw [if_pos hs, hr]
      rw [if_pos hs] at hc'
      exact hc'
    · obtain ⟨-, rfl⟩ := Prod.mk.inj heq
      rw [if_neg (Bool.eq_false_iff.1 hs)]
      rw [if_neg (Bool.eq_false_iff.1 hs)] at hc'
      exact hc'

theorem rowActs_run (hi : Inv reg s) (h : s.step reg ev = some s') (k : TaskId) :
    ∃ b, runActs reg (s.rowActs reg k ev) (false, s.db.cur.row k) = .ok (b, s'.db.cur.row k) := by
  have quiet : s'.db.cur.row k = s.db.cur.row k → s.rowActs reg k ev = [] →
      ∃ b, runActs reg (s.rowActs reg k ev) (false, s.db.cur.row k) =
        .ok (b, s'.db.cur.row k) := fun hrow hnil => ⟨false, by rw [hnil, hrow]; rfl⟩
  by_cases hc : ∃ i, ev = .db (.commit i)
  · obtain ⟨i, rfl⟩ := hc
    obtain ⟨x, hx, -, hst⟩ := Sys.step_commit h
    by_cases hk : k ∈ x.locked
    · rw [rowActs_commit hx, if_pos hk]
      exact commit_row hi.wf hst hx hk
    · refine quiet ?_ (by rw [rowActs_commit hx, if_neg hk])
      rcases hst.row_change hi.wf k with hsame | ⟨j, y, o, he, hy, hky, -⟩
      · exact hsame
      · obtain rfl := Event.commit.inj he
        obtain rfl := Option.some.inj (hx.symm.trans hy)
        exact absurd hky hk
  · have hc : ∀ i, ev ≠ .db (.commit i) := fun i he => hc ⟨i, he⟩
    refine quiet (by rw [Sys.cur_eq h hc]) ?_
    cases ev with
    | db e => cases e with
      | commit i => exact absurd rfl (hc i)
      | _ => rfl
    | _ => rfl

/-- **History rule.** A run makes of a row what the statements of the transactions that have
committed make of it, in the order of the commits. -/
theorem row_history {s₀ : Sys} {es : List Ev} {ok : Sys → Ev → Prop} (hi : Inv reg s₀)
    (hp : Path (Sys.step reg) ok s₀ es s) (k : TaskId) :
    ∃ b, runActs reg (history reg k s₀ es) (false, s₀.db.cur.row k) = .ok (b, s.db.cur.row k) := by
  have := hp.inv_emitted (f := Sys.rowActs reg k) (l := [])
    (I := fun l s => Inv reg s ∧
      ∃ b, runActs reg l (false, s₀.db.cur.row k) = .ok (b, s.db.cur.row k))
    (fun l s e s' hs _ h => by
      obtain ⟨hi, b, hb⟩ := hs
      obtain ⟨b', hb'⟩ := rowActs_run hi h k
      obtain ⟨c, hc⟩ := runActs_flag hb' b
      refine ⟨hi.step h, c, ?_⟩
      rw [runActs_append_eq, hb]
      exact hc) ⟨hi, false, rfl⟩
  exact this.2

/-! ## What statements put out -/

/-- What the statements put out, each for the row it finds and the row it leaves. -/
def outputs {O : Type*} (reg : Registry) (f : RowAct → Option Task → Option Task → List O) :
    List RowAct → Option Task → List O
  | [], _ => []
  | a :: acts, o =>
    if a.selects o then match a.run reg o with
      | .ok o' => f a o o' ++ outputs reg f acts o'
      | .error _ => []
    else outputs reg f acts o

variable {O : Type*} {f : RowAct → Option Task → Option Task → List O}

theorem outputs_selected {a : RowAct} {acts : List RowAct} {o o' : Option Task}
    (hs : a.selects o = true) (hr : a.run reg o = .ok o') :
    outputs reg f (a :: acts) o = f a o o' ++ outputs reg f acts o' := by
  rw [outputs, if_pos hs, hr]

theorem outputs_unselected {a : RowAct} {acts : List RowAct} {o : Option Task}
    (hs : a.selects o = false) : outputs reg f (a :: acts) o = outputs reg f acts o := by
  rw [outputs, if_neg (Bool.eq_false_iff.1 hs)]

/-- **Output rule.** What holds of a row and of what has been put out so far, and is kept by every
statement that goes through, holds after a list of statements. -/
theorem outputs_inv {I : List O → List RowAct → Option Task → Prop}
    (hsel : ∀ l a acts o o', I l (a :: acts) o → a.selects o = true → a.run reg o = .ok o' →
      I (l ++ f a o o') acts o')
    (hun : ∀ l a acts o, I l (a :: acts) o → a.selects o = false → I l acts o)
    {acts : List RowAct} {p q : Bool × Option Task} (h : runActs reg acts p = .ok q) {l : List O}
    (h0 : I l acts p.2) : I (l ++ outputs reg f acts p.2) [] q.2 := by
  induction acts generalizing p l with
  | nil =>
    obtain rfl := Except.ok.inj h
    simpa [outputs] using h0
  | cons a acts ih =>
    obtain ⟨p', hp', hrest⟩ := runActs_cons h
    rcases RowAct.exec_run hp' with ⟨hs, hr, -⟩ | ⟨hs, rfl⟩
    · rw [outputs_selected hs hr, ← List.append_assoc]
      exact ih hrest (hsel l a acts p.2 p'.2 h0 hs hr)
    · rw [outputs_unselected hs]
      exact ih hrest (hun l a acts p'.2 h0 hs)

theorem outputs_append {acts : List RowAct} {p q : Bool × Option Task}
    (h : runActs reg acts p = .ok q) (acts' : List RowAct) : outputs reg f (acts ++ acts') p.2 =
      outputs reg f acts p.2 ++ outputs reg f acts' q.2 := by
  induction acts generalizing p with
  | nil => obtain rfl := Except.ok.inj h; rfl
  | cons a acts ih =>
    obtain ⟨p', hp', hrest⟩ := runActs_cons h
    rcases RowAct.exec_run hp' with ⟨hs, hr, -⟩ | ⟨hs, rfl⟩
    · rw [List.cons_append, outputs_selected hs hr, outputs_selected hs hr, ih hrest,
        List.append_assoc]
    · rw [List.cons_append, outputs_unselected hs, outputs_unselected hs, ih hrest]

theorem emitted_outputs {es : List Ev} {ok : Sys → Ev → Prop} (hi : Inv reg s)
    (hp : Path (Sys.step reg) ok s es s') (k : TaskId) :
    emitted (Sys.step reg) (fun s ev => outputs reg f (s.rowActs reg k ev) (s.db.cur.row k)) s es =
      outputs reg f (history reg k s es) (s.db.cur.row k) := by
  induction hp with
  | nil s => rfl
  | @cons s s₁ s₂ e es hok hs h ih =>
    obtain ⟨b, hb⟩ := rowActs_run hi hs k
    have := outputs_append (f := f) hb (history reg k s₁ es)
    simp only [history, emitted, hs, Option.map_some, Option.getD_some] at ih this ⊢
    rw [ih (hi.step hs), this]

/-! ## Creation -/

def DrawsOnce (_ : Sys) (ev : Ev) : Prop := ∀ a, ev = .db (.begin a) → a.created.Nodup

instance (s : Sys) (ev : Ev) : Decidable (DrawsOnce s ev) :=
  decidable_of_iff ((match ev with
    | .db (.begin a) => decide a.created.Nodup
    | _ => true) = true) (by unfold DrawsOnce; split <;> simp_all)

/-- Statements that create their row at most once, and only where there is none. -/
structure CreatesOnce (acts : List RowAct) (o : Option Task) : Prop where
  once : acts.countP RowAct.creates ≤ 1
  absent : (∃ a ∈ acts, a.creates = true) → o = none

def inserts (k : TaskId) (p : TaskId × RowAct) : Bool := p.2.creates && decide (p.1 = k)

theorem acts_inserts (a : Tx) (σ : Snapshot TaskId Task) (L : List TaskId) (k : TaskId) :
    (a.acts reg σ L k).countP RowAct.creates = (a.stmts reg σ L).countP (inserts k) := by
  unfold Tx.acts
  rw [List.countP_map, List.countP_filter]
  rfl

theorem userStmts_inserts (body : List (TaskId × UserAct)) (k : TaskId) :
    (userStmts body).countP (inserts k) =
      ((body.filter fun p => p.2.creates).map Prod.fst).count k := by
  unfold userStmts List.count
  rw [List.countP_map, List.countP_map, List.countP_filter]
  refine List.countP_congr fun p _ => ?_
  simp [inserts, RowAct.creates, UserAct.creates_at, and_comm]

theorem inserts_none {l : List (TaskId × RowAct)} (h : ∀ p ∈ l, p.2.creates = false) :
    l.countP (inserts k) = 0 :=
  List.countP_eq_zero.2 fun p hp hc => by
    rw [inserts, h p hp] at hc
    cases hc

/-- A transaction issues at most as many inserts of row `k` as it has drawn the id. -/
theorem acts_creates_le (a : Tx) (σ : Snapshot TaskId Task) (L : List TaskId) (k : TaskId) :
    (a.acts reg σ L k).countP RowAct.creates ≤ a.created.count k := by
  have hnone : ∀ {α : Type} {l : List α} {f : α → TaskId × RowAct},
      (∀ x, (f x).2.creates = false) → (l.map f).countP (inserts k) = 0 := fun hf =>
    inserts_none fun p hp => by
      obtain ⟨x, -, rfl⟩ := List.mem_map.1 hp
      exact hf x
  have hbody : ∀ (c : Prop) [Decidable c] (body : List (TaskId × UserAct)),
      (if c then [] else userStmts body).countP (inserts k) ≤
        ((body.filter fun p => p.2.creates).map Prod.fst).count k := fun c _ body => by
    split_ifs
    · exact Nat.zero_le _
    · exact Nat.le_of_eq (userStmts_inserts body k)
  rw [acts_inserts]
  cases a with
  | user body => exact Nat.le_of_eq (userStmts_inserts body k)
  | claimTask c rank uuid => exact Nat.le_of_eq (hnone fun _ => rfl)
  | actionStart r id now => exact Nat.le_of_eq (inserts_none fun p hp => by
      rw [List.mem_singleton.1 hp]; rfl)
  | execute r id now body outcome =>
    simp only [Tx.stmts, List.countP_append]
    rw [userStmts_inserts, inserts_none (l := [_]) fun p hp => by
      rw [List.mem_singleton.1 hp]; cases outcome <;> rfl]
    exact Nat.le_refl _
  | failureHandler r id now body exc tb =>
    simp only [Tx.stmts, List.countP_append]
    rw [inserts_none (l := [_]) fun p hp => by rw [List.mem_singleton.1 hp]; rfl]
    exact hbody _ body
  | updateProgress ticks => exact Nat.le_of_eq (hnone fun _ => rfl)
  | timeoutTask r id alive => exact Nat.le_of_eq (inserts_none fun p hp => by
      simp only [Tx.stmts] at hp
      split_ifs at hp
      · rw [List.mem_singleton.1 hp]; rfl
      · cases hp)
  | recoverLostExecutions waiting ids now error body =>
    simp only [Tx.stmts, List.countP_append]
    rw [hnone fun _ => rfl, hnone fun _ => rfl, Nat.zero_add, Nat.zero_add]
    exact hbody _ body
  | resolvedStuckThread r id now body =>
    simp only [Tx.stmts]
    split_ifs
    · rw [inserts_none fun p hp => by rw [List.mem_singleton.1 hp]; rfl]
      exact Nat.zero_le _
    · rw [List.countP_cons_of_neg (by simp [inserts, RowAct.creates])]
      exact Nat.le_of_eq (userStmts_inserts body k)
    · exact Nat.zero_le _
  | autoRetryFailed w rank now => exact Nat.le_of_eq (hnone fun _ => rfl)
  | checkWaitingParent id now body verdict =>
    simp only [Tx.stmts]
    rw [List.countP_cons_of_neg (by simp [inserts, RowAct.creates])]
    split_ifs
    · exact Nat.zero_le _
    · rw [List.countP_append, userStmts_inserts, hnone fun _ => rfl]
      exact Nat.le_refl _

theorem runActs_creates {acts : List RowAct} {p q : Bool × Option Task}
    (h : runActs reg acts p = .ok q) (hc : ∃ a ∈ acts, a.creates = true) : q.1 = true := by
  obtain ⟨a, hm, ha⟩ := hc
  obtain ⟨pre, post, rfl⟩ := List.append_of_mem hm
  rw [runActs_append_eq] at h
  obtain ⟨p₁, -, h⟩ := bind_ok h
  obtain ⟨p₂, hexec, hpost⟩ := runActs_cons h
  have hwritten : p₂.1 = true := by
    obtain ⟨b, o⟩ := p₁
    rcases RowAct.exec_run hexec with ⟨-, -, hw⟩ | ⟨hs, -⟩
    · rw [hw]
      cases a with
      | user u => cases u with
        | create v => exact Bool.or_true _
        | _ => cases ha
      | _ => cases ha
    · cases a with
      | user u => cases u with
        | create v => cases o <;> cases hs
        | _ => cases ha
      | _ => cases ha
  by_contra hq
  have := (runActs_unwritten hpost (Bool.eq_false_iff.2 hq)).1
  rw [hwritten] at this
  cases this

/-- What holds of row `k` as long as its id has not been used: its version is that of the start, and
so it is in the snapshot of every transaction that has drawn the id. -/
structure Undrawn (reg : Registry) (k : TaskId) (v₀ : ℕ) (s : Sys) : Prop where
  inv : Inv reg s
  absent : k ∉ s.db.cur.keys → s.db.cur.ver k = v₀
  drawn : ∀ i x, s.db.txns i = some x → k ∈ x.act.created → x.snap.ver k = v₀
  nodup : ∀ i x, s.db.txns i = some x → x.act.created.Nodup

theorem Undrawn.step {v₀ : ℕ} (hu : Undrawn reg k v₀ s) (hok : DrawsOnce s ev)
    (h : s.step reg ev = some s') : Undrawn reg k v₀ s' where
  inv := hu.inv.step h
  absent hk := by
    rcases Sys.step_db h with ⟨e, -, -, hs⟩ | ⟨-, hdb⟩
    · rw [hs.ver_of_not_mem hk]
      exact hu.absent fun hm => hk (hs.keys_subset hm)
    · rw [hdb] at hk ⊢
      exact hu.absent hk
  drawn i x hx hk := by
    rcases Sys.step_txn h hx with ⟨y, hy, hact, hsnap⟩ | ⟨-, hsnap, -, ha, -⟩
    · rw [hsnap]
      exact hu.drawn i y hy (hact ▸ hk)
    · rw [hsnap]
      exact hu.absent (allows_created ha hk)
  nodup i x hx := by
    rcases Sys.step_txn h hx with ⟨y, hy, hact, -⟩ | ⟨rfl, -⟩
    · rw [hact]
      exact hu.nodup i y hy
    · exact hok _ rfl

/-- What commits insert under an id is fenced by the version of the row. -/
theorem creation_fenced (reg : Registry) (k : TaskId) (v₀ : ℕ) :
    Fenced (Sys.step reg) DrawsOnce (Undrawn reg k v₀)
      (fun s => if v₀ < s.db.cur.ver k then .spent else .live)
      (fun s ev => (s.rowActs reg k ev).countP RowAct.creates) := by
  refine ⟨fun s e s' hu hok h => hu.step hok h, fun s e s' hu _ h => ?_,
    fun s e s' hu _ h hpos => ?_, fun s e s' _ _ h hsp => ?_⟩
  · by_contra hlt
    obtain ⟨a, hm, -⟩ := List.countP_pos_iff.1 (Nat.lt_of_lt_of_le Nat.one_pos
      (Nat.le_of_lt (Nat.lt_of_not_le hlt)))
    obtain ⟨i, x, rfl, hx, -, hacts⟩ := mem_rowActs hm
    rw [hacts] at hlt
    exact hlt ((acts_creates_le x.act x.snap x.locked k).trans
      (List.nodup_iff_count_le_one.1 (hu.nodup i x hx) k))
  · have hc := List.countP_pos_iff.1 hpos
    obtain ⟨a, hm, -⟩ := id hc
    obtain ⟨i, x, rfl, hx, hk, hacts⟩ := mem_rowActs hm
    rw [hacts] at hc
    have hkc : k ∈ x.act.created := by
      by_contra hn
      obtain ⟨a, hm, ha⟩ := hc
      rw [acts_no_create hn a hm] at ha
      cases ha
    have hver : s.db.cur.ver k = v₀ :=
      ((hu.inv.wf.txn i x hx).unchanged k hk).trans (hu.drawn i x hx hkc)
    -- an insert that goes through makes a new version
    obtain ⟨y, hy, -, hst⟩ := Sys.step_commit h
    obtain rfl := Option.some.inj (hx.symm.trans hy)
    obtain ⟨b, hrun⟩ := commit_row hu.inv.wf hst hx hk
    obtain rfl : b = true := runActs_creates hrun hc
    obtain ⟨z, hz, -, -, hcur⟩ := hst.commit_inv
    obtain rfl := Option.some.inj (hx.symm.trans hz)
    have hw : x.written (prog reg) k = some (s'.db.cur.row k) := by
      rw [Txn.written_of_mem hk]
      rw [← (hu.inv.wf.txn i x hx).locked_row hk] at hrun
      exact write_of_run hrun
    rw [if_neg (by omega), if_pos]
    · exact ⟨rfl, rfl⟩
    · rw [hcur, Txn.apply_ver_of_some hw]
      omega
  · split_ifs at hsp with hlt
    exact if_pos (Nat.lt_of_lt_of_le hlt (Sys.ver_le h k))

/-- **Created once.** A history creates its row at most once, and only if there was none. -/
theorem created_once {s₀ : Sys} {es : List Ev} (h0 : Start s₀)
    (hp : Path (Sys.step reg) DrawsOnce s₀ es s) (k : TaskId) :
    CreatesOnce (history reg k s₀ es) (s₀.db.cur.row k) where
  once := by
    unfold history
    rw [emitted_countP]
    exact (creation_fenced reg k (s₀.db.cur.ver k)).total_le_one hp
      ⟨h0.inv, fun _ => rfl, fun _ _ hx => absurd hx h0.closed, fun _ _ hx => absurd hx h0.closed⟩
  absent := by
    rintro ⟨a, hm, ha⟩
    by_contra hrow
    obtain ⟨t, ht⟩ := Option.ne_none_iff_exists'.1 hrow
    have := hp.inv_emitted (f := Sys.rowActs reg k) (l := [])
      (I := fun l s => (∀ a ∈ l, a.creates = false) ∧ k ∈ s.db.cur.keys ∧
        ∀ i x, s.db.txns i = some x → k ∉ x.act.created) (fun l s e s' hs _ h => by
        obtain ⟨hl, hk, hx⟩ := hs
        refine ⟨fun a hm => ?_, Sys.keys_subset h hk, fun i x hx' hc => ?_⟩
        · rcases List.mem_append.1 hm with hm | hm
          · exact hl a hm
          · obtain ⟨i, x, -, hxi, -, hacts⟩ := mem_rowActs hm
            rw [hacts] at hm
            exact acts_no_create (hx i x hxi) a hm
        · rcases Sys.step_txn h hx' with ⟨y, hy, hact, -⟩ | ⟨-, -, -, hal, -⟩
          · exact hx i y hy (hact ▸ hc)
          · exact allows_created hal hc hk)
      ⟨fun _ h => absurd h List.not_mem_nil, h0.ok.present k t ht,
        fun _ _ hx => absurd hx h0.closed⟩
    rw [this.1 a hm] at ha
    cases ha

theorem history_append {s₀ : Sys} {es es' : List Ev} {ok : Sys → Ev → Prop}
    (hp : Path (Sys.step reg) ok s₀ es s) :
    history reg k s₀ (es ++ es') = history reg k s₀ es ++ history reg k s es' := by
  induction hp with
  | nil s => rfl
  | cons hok hs h ih =>
    simp only [history, List.cons_append, emitted, hs, Option.map_some, Option.getD_some] at ih ⊢
    rw [ih, List.append_assoc]

/-- So does the history from any state that is reached; a row that is there is not created. -/
theorem created_once_from {s₀ : Sys} {es es' : List Ev} (h0 : Start s₀)
    (hp : Path (Sys.step reg) DrawsOnce s₀ es s) (hp' : Path (Sys.step reg) DrawsOnce s es' s')
    (k : TaskId) : CreatesOnce (history reg k s es') (s.db.cur.row k) := by
  have hall := created_once h0 (hp.append hp') k
  rw [history_append hp] at hall
  have honce := hall.once
  rw [List.countP_append] at honce
  refine ⟨by omega, fun hex => ?_⟩
  have hrow := hall.absent (hex.imp fun a ha => ⟨List.mem_append_right _ ha.1, ha.2⟩)
  obtain ⟨b, hrun⟩ := row_history h0.inv hp k
  refine runActs_absent (fun a hm => ?_) (by exact hrow) hrun
  -- the row has been created once
  have hpos := List.countP_pos_iff.2 hex
  by_contra ha
  have := List.countP_pos_iff.2 ⟨a, hm, Bool.not_eq_false _ ▸ ha⟩
  omega

/-- **Output rule for a task.** What holds of the task found, is true of a task just created with
nothing put out before, and is kept by every statement on it, holds at the end. -/
theorem outputs_task {P : List O → Task → Prop} {acts : List RowAct} {p q : Bool × Option Task}
    (hcreate : p.2 = none → ∀ v, P (f (.user (.create v)) none (some v.create)) v.create)
    (hstep : ∀ l a t t', P l t → a.selects (some t) = true → a.run reg (some t) = .ok (some t') →
      P (l ++ f a (some t) (some t')) t')
    (hc : CreatesOnce acts p.2) (h : runActs reg acts p = .ok q) (h0 : ∀ t, p.2 = some t → P [] t) :
    ∀ t, q.2 = some t → P (outputs reg f acts p.2) t := by
  have := outputs_inv (f := f) (l := [])
    (I := fun l acts o => (∀ t, o = some t → P l t) ∧ acts.countP RowAct.creates ≤ 1 ∧
      ((∃ a ∈ acts, a.creates = true) → p.2 = none ∧ o = none ∧ l = [])) ?_ ?_ h
    ⟨h0, hc.once, fun hex => ⟨hc.absent hex, hc.absent hex, rfl⟩⟩
  · exact this.1
  · rintro l a acts o o' ⟨hP, hone, hfresh⟩ hs hr
    cases ha : a.creates with
    | true =>
      obtain ⟨hp, rfl, rfl⟩ := hfresh ⟨a, List.mem_cons_self, ha⟩
      rw [List.countP_cons_of_pos ha] at hone
      refine ⟨fun t ht => ?_, by omega, fun hex => ?_⟩
      · cases a with
        | user u => cases u with
          | create v =>
            obtain rfl := Except.ok.inj hr
            obtain rfl := Option.some.inj ht
            exact hcreate hp v
          | _ => cases ha
        | _ => cases ha
      · have := List.countP_pos_iff.2 hex
        omega
    | false =>
      rw [List.countP_cons_of_neg (by simpa using ha)] at hone
      rcases o with _ | t
      · exact (RowAct.run_none ha hr).elim
      · -- an insert to come would not have found a row
        have hno : ¬ ∃ a ∈ acts, a.creates = true := fun ⟨b, hm, hb⟩ =>
          nomatch (hfresh ⟨b, List.mem_cons_of_mem _ hm, hb⟩).2.1
        refine ⟨fun t' ht' => ?_, hone, fun hex => absurd hex hno⟩
        subst ht'
        exact hstep l a t t' (hP t rfl) hs hr
  · rintro l a acts o ⟨hP, hone, hfresh⟩ -
    refine ⟨hP, Nat.le_trans ?_ hone, fun ⟨b, hm, hb⟩ =>
      hfresh ⟨b, List.mem_cons_of_mem _ hm, hb⟩⟩
    exact (List.sublist_cons_self a acts).countP_le

/-! ## `phase_data` -/

/-- The values that a statement merges into `phase_data`. -/
def RowAct.stores : RowAct → List (List (String × Json))
  | .user (.storePhaseData vals) => [vals]
  | .user (.enterPhase _ (some ids)) => [[("child_ids", .ints (ids.map Int.ofNat))]]
  | _ => []

theorem RowAct.stores_cases (a : RowAct) : a.stores = [] ∨ ∃ vals, a.stores = [vals] := by
  unfold RowAct.stores
  split
  · exact .inr ⟨_, rfl⟩
  · exact .inr ⟨_, rfl⟩
  · exact .inl rfl

/-- What `store_phase_data` and `_start_wave` have stored in task `k`, in the order of the
commits. -/
def phaseStores (reg : Registry) (k : TaskId) (s : Sys) (es : List Ev) :
    List (List (String × Json)) :=
  outputs reg (fun a _ _ => a.stores) (history reg k s es) (s.db.cur.row k)

theorem lookup_filter_key {V : Type*} (f : String → Bool) (key : String) (l : List (String × V)) :
    (l.filter fun kv => f kv.1).lookup key = if f key then l.lookup key else none := by
  induction l with
  | nil => simp
  | cons kv l ih =>
    obtain ⟨k', v⟩ := kv
    by_cases hk : key = k'
    · subst hk
      cases hf : f key <;> simp [hf, ih]
    · have hb : (key == k') = false := beq_eq_false_iff_ne.2 hk
      cases hf : f k' <;> simp [hf, hb, List.lookup_cons, ih]

theorem storePhaseData_lookup (vals : List (String × Json)) (t : Task) (key : String) :
    (storePhaseData vals t).phaseData.lookup key = (vals ++ t.phaseData).lookup key := by
  show (vals ++ t.phaseData.filter fun kv => kv.1 ∉ vals.map Prod.fst).lookup key = _
  rw [List.lookup_append, List.lookup_append,
    lookup_filter_key (fun key => decide (key ∉ vals.map Prod.fst))]
  rcases hv : vals.lookup key with _ | v
  · rw [if_pos]
    rw [decide_eq_true_eq, List.mem_map]
    rintro ⟨⟨k', v⟩, hm, rfl⟩
    have := List.lookup_eq_none_iff.1 hv _ hm
    simp at this
  · rfl

/-- Only `store_phase_data` and `_start_wave` write `phase_data`. -/
theorem RowAct.run_phaseData {a : RowAct} {t t' : Task}
    (h : a.run reg (some t) = .ok (some t')) (key : String) :
    t'.phaseData.lookup key = (a.stores.flatten ++ t.phaseData).lookup key := by
  change a.onTask reg t = .ok (some t') at h
  cases a with
  | user u =>
    cases u with
    | create v => cases h
    | storePhaseData vals =>
      obtain rfl := Option.some.inj (Except.ok.inj h)
      simpa [RowAct.stores] using storePhaseData_lookup vals t key
    | enterPhase phase childIds =>
      obtain rfl := Option.some.inj (Except.ok.inj h)
      cases childIds with
      | none => rfl
      | some ids =>
        show (storePhaseData _ t).phaseData.lookup key = _
        rw [storePhaseData_lookup]
        rfl
    | actionCancel now => obtain ⟨-, rfl⟩ := checked_some h; rfl
    | actionRetry eta => obtain ⟨-, rfl⟩ := actionRetry_ok (ok_of_map_some h); rfl
    | unlink => cases h
    | _ => obtain rfl := Option.some.inj (Except.ok.inj h); rfl
  | assign worker uuid => obtain ⟨-, rfl⟩ := claimRow_eq (ok_of_map_some h); rfl
  | failure runner now exc traceback read =>
    rcases handleFailure_cases (ok_of_map_some h) with ⟨-, _, rfl⟩ | ⟨-, h⟩
    · rfl
    · obtain ⟨-, rfl⟩ := checked_ok h; rfl
  | lostExecution runner worker now error =>
    rcases handleLostExecution_cases (ok_of_map_some h) with ⟨-, h⟩ | ⟨-, -, rfl⟩ | ⟨-, -, h⟩
    · obtain ⟨-, rfl⟩ := checked_ok h; rfl
    · rfl
    · obtain ⟨-, rfl⟩ := checked_ok h; rfl
  | move now m => cases m <;> obtain ⟨-, rfl⟩ := checked_some h <;> rfl
  | start now => obtain ⟨-, rfl⟩ := checked_some h; rfl
  | stuck => obtain ⟨-, rfl⟩ := checked_some h; rfl
  | waitChildren => obtain ⟨-, rfl⟩ := checked_some h; rfl
  | done runner now result => obtain ⟨-, rfl⟩ := checked_some h; rfl
  | _ => obtain rfl := Option.some.inj (Except.ok.inj h); rfl

/-- **No phase data is lost.** After any run, however transactions interleave, `phase_data` of a
task has under each key the value of the last committed `store_phase_data` that passed the key, or
for the children of a wave of the last `_start_wave` that spawned one, whichever came last; else the
value that it had at the start. -/
theorem phase_data_lookup {s₀ : Sys} {es : List Ev} {t : Task} (h0 : Start s₀)
    (hp : Path (Sys.step reg) DrawsOnce s₀ es s) (ht : s.db.cur.row k = some t) (key : String) :
    t.phaseData.lookup key = ((phaseStores reg k s₀ es).reverse.flatten ++
      (s₀.db.cur.row k).elim [] Task.phaseData).lookup key := by
  obtain ⟨b, hrun⟩ := row_history h0.inv hp k
  have hc := created_once h0 hp k
  refine outputs_task (P := fun l t => t.phaseData.lookup key =
    (l.reverse.flatten ++ (s₀.db.cur.row k).elim [] Task.phaseData).lookup key)
    ?_ ?_ hc hrun ?_ t ht
  · intro hnone v
    rw [show s₀.db.cur.row k = none from hnone]
    rfl
  · intro l a t t' hl _ hr
    rw [RowAct.run_phaseData hr key, List.lookup_append, hl, List.lookup_append, List.lookup_append]
    rcases a.stores_cases with hs | ⟨vals, hs⟩ <;>
      simp [hs, List.lookup_append, Option.or_assoc]
  · intro t ht
    rw [show s₀.db.cur.row k = some t from ht]
    rfl

/-- Two transactions merge values into the `phase_data` that both have read, one of which enters a
phase; the second one has to begin anew. -/
def storedTwice : List Ev := [
  .db (.begin (.user [(1, .storePhaseData [("fetched", .int 1)]), (1, .enterPhase 0 (some [2]))])),
  .db (.begin (.user [(1, .storePhaseData [("sent", .int 2)])])),
  .db (.lock 0), .db (.commit 0), .db (.abort 1),
  .db (.begin (.user [(1, .storePhaseData [("sent", .int 2)])])), .db (.lock 2), .db (.commit 2)]

theorem storedTwice_lookup : ∃ s t, Path (Sys.step []) DrawsOnce (Sys.init oneTask) storedTwice s ∧
    s.db.cur.row 1 = some t ∧ t.phaseData.lookup "fetched" = some (.int 1) ∧
    t.phaseData.lookup "child_ids" = some (.ints [2]) ∧
    t.phaseData.lookup "sent" = some (.int 2) := by
  have hp : Path (Sys.step []) DrawsOnce (Sys.init oneTask) storedTwice _ :=
    path_reached (by decide +kernel)
  obtain ⟨t, ht⟩ : ∃ t, (reached (Sys.step []) DrawsOnce (Sys.init oneTask)
      storedTwice).db.cur.row 1 = some t := ⟨_, rfl⟩
  refine ⟨_, t, hp, ht, ?_, ?_, ?_⟩ <;>
    rw [phase_data_lookup (Start.init (by decide)) hp ht] <;> decide +kernel

end GenericTaskQueue
