import GenericBackground.Lib.Scan
import GenericBackground.TaskQueue.System

/-!
# A transaction on its own

With no other transaction open, a transaction that raises no error goes through: it gets every row
that it asks for, leaves none out, and commits (`Sys.run_alone`). One that consists of one statement
makes of the statement's row what the statement makes of it (`Sys.run_one`).
-/

namespace GenericTaskQueue

open RowStore Lts

variable {reg : Registry} {s s' : Sys}

/-! ## Locks -/

theorem Sys.step_of_step {e : Event Tx} (ha : s.allows e = true) {db : Db Tx TaskId Task}
    (h : RowStore.step (prog reg) s.db e = some db) : s.step reg (.db e) =
      some ⟨db, s.spawns (.db e) ++ s.threads.map (Thread.after s (.db e))⟩ := by
  show (if _ then _ else _) = some _
  rw [if_pos ha, h]
  rfl

theorem Sys.lock_run {db db' : Db Tx TaskId Task} {i m : ℕ} {ths : List Thread}
    (h : Path (RowStore.step (prog reg)) anyStep db (List.replicate m (.lock i)) db') :
    Path (Sys.step reg) anyStep ⟨db, ths⟩ (List.replicate m (.db (.lock i))) ⟨db', ths⟩ := by
  induction m generalizing db with
  | zero => cases h; exact .nil _
  | succ m ih =>
    cases h with
    | cons _ hs h =>
      refine .cons trivial ?_ (ih h)
      rw [Sys.step_of_step (s := ⟨db, ths⟩) rfl hs,
        List.map_id'' (f := Thread.after ⟨db, ths⟩ (.db (.lock i))) fun _ => rfl]
      rfl

/-! ## From the beginning to the commit -/

theorem commit_unlocked {i : ℕ} {x : Txn Tx TaskId Task} (hx : s.db.txns i = some x)
    (hc : s.step reg (.db (.commit i)) = some s') {k : TaskId} (hk : k ∉ x.locked) :
    s'.db.cur.row k = s.db.cur.row k := by
  obtain ⟨y, hy, -, -, hcur⟩ := (Sys.step_of_db hc).2.commit_inv
  obtain rfl := Option.some.inj (hx.symm.trans hy)
  rw [hcur, Txn.apply_row_of_none (Txn.written_of_not_mem hk)]

/-- What a transaction makes of its thread. -/
def Thread.done (a : Tx) (th : Thread) : Thread :=
  if th.owns a then (th.begun a).committed a else th

theorem owns_begun {a b : Tx} {th : Thread} : (th.begun b).owns a = th.owns a := by
  unfold Thread.owns
  cases b <;> rfl

theorem begun_committed (x : Txn Tx TaskId Task) (th : Thread) :
    Thread.onTxn (Thread.committed (if th.owns x.act then th.begun x.act else th))
      (if th.owns x.act then th.begun x.act else th) (some x) = th.done x.act := by
  unfold Thread.done Thread.onTxn
  by_cases h : th.owns x.act = true
  · simp only [h, if_true, owns_begun]
  · simp only [h, if_false, Bool.false_eq_true]

/-- **A transaction alone.** `B` bounds the rows that it asks for. -/
theorem Sys.run_alone (hi : Inv reg s) (hidle : ∀ i, s.db.txns i = none) {a : Tx}
    (hallow : s.allows (.begin a) = true) {B : List TaskId}
    (hB : ∀ L, ∀ p ∈ a.stmts reg s.db.cur L, p.1 ∈ B)
    (hvalid : ∀ L, L ⊆ B → (prog reg).valid a s.db.cur L = true)
    (hspawn : ∀ L, L ⊆ B → L.Nodup →
      ((spawned ⟨a, s.db.cur, L, []⟩).map Thread.runner).Nodup ∧
        ∀ r ∈ (spawned ⟨a, s.db.cur, L, []⟩).map Thread.runner, r ∉ s.threads.map Thread.runner) :
    ∃ m L s₁ s', Path (Sys.step reg) anyStep s
        (.db (.begin a) :: List.replicate m (.db (.lock s.db.nextId))) s₁ ∧
      s₁.db.cur = s.db.cur ∧ s₁.db.txns s.db.nextId = some ⟨a, s.db.cur, L, []⟩ ∧
      (prog reg).next a s.db.cur L [] = none ∧ L ⊆ B ∧
      s₁.step reg (.db (.commit s.db.nextId)) = some s' ∧ (∀ i, s'.db.txns i = none) ∧
      s'.threads = spawned ⟨a, s.db.cur, L, []⟩ ++ s.threads.map (Thread.done a) := by
  let x₀ : Txn Tx TaskId Task := ⟨a, s.db.cur, [], []⟩
  let db₁ : Db Tx TaskId Task :=
    { s.db.set s.db.nextId (some x₀) with nextId := s.db.nextId + 1 }
  let ths : List Thread := s.threads.map (Thread.after s (.db (.begin a)))
  have hother : ∀ j ≠ s.db.nextId, db₁.txns j = none := fun j hj =>
    (set_txns_ne s.db _ hj).trans (hidle j)
  have hbegin : s.step reg (.db (.begin a)) = some ⟨db₁, ths⟩ := by
    rw [Sys.step_of_step hallow (step_iff.2 (.begin _))]
    rfl
  have hx₀ : db₁.txns s.db.nextId = some x₀ := set_txns_self s.db _ _
  -- it locks row after row
  obtain ⟨m, x, hlocks, hact, hsnap, hskip, hask⟩ := exists_lock_run (P := prog reg) hx₀ rfl hother
    (B := B) (fun L S md k h => by
      obtain ⟨act, hm, -⟩ := next_some h
      exact hB L _ hm) List.nodup_nil (List.nil_subset _)
  have hrun : Path (Sys.step reg) anyStep s _ _ := .cons trivial hbegin (Sys.lock_run hlocks)
  generalize hdb : db₁.set s.db.nextId (some x) = db₂ at hrun
  have hx : db₂.txns s.db.nextId = some x := hdb ▸ set_txns_self db₁ _ _
  have hclosed : ∀ j, (db₂.set s.db.nextId none).txns j = none := fun j => by
    by_cases hj : j = s.db.nextId
    · rw [hj, set_txns_self]
    · rw [set_txns_ne _ _ hj, ← hdb, set_txns_ne _ _ hj, hother j hj]
  obtain ⟨a', σ, L, S⟩ := x
  obtain rfl : a' = a := hact
  obtain rfl : σ = s.db.cur := hsnap
  obtain rfl : S = [] := hskip
  have htx := (hi.path hrun).wf.txn _ _ hx
  have hLB : L ⊆ B := fun k hk => by
    obtain ⟨L', S', md, hnext⟩ := htx.asked k hk
    obtain ⟨act, hm, -⟩ := next_some hnext
    exact hB L' _ hm
  have hallow' : Sys.allows ⟨db₂, ths⟩ (.commit s.db.nextId) = true := by
    obtain ⟨hnd, hnew⟩ := hspawn L hLB htx.nodup
    have hrunners : ths.map Thread.runner = s.threads.map Thread.runner := by
      rw [List.map_map]
      exact List.map_congr_left fun th _ => (th.after_same s _).1
    simp only [Sys.allows, hx, Option.all_some, hrunners, decide_eq_true_eq]
    exact ⟨hnd, hnew⟩
  have hcommit := Sys.step_of_step hallow' (step_iff.2 (.commit hx hask (hvalid L hLB)))
  refine ⟨m, L, _, _, hrun, hdb ▸ rfl, hx, hask, hLB, hcommit, hclosed, ?_⟩
  show (db₂.txns s.db.nextId).elim [] spawned ++ ths.map _ = _
  rw [hx, List.map_map]
  refine congrArg _ (List.map_congr_left fun th _ => ?_)
  show (th.after s (.db (.begin a'))).onTxn _ (db₂.txns s.db.nextId) = th.done a'
  rw [hx]
  exact begun_committed ⟨a', s.db.cur, L, []⟩ th

/-- **One statement alone.** -/
theorem Sys.run_one (hi : Inv reg s) (hidle : ∀ i, s.db.txns i = none) {a : Tx} {k : TaskId}
    {act : RowAct} {o : Option Task} (hallow : s.allows (.begin a) = true)
    (hst : ∀ L, a.stmts reg s.db.cur L = [(k, act)]) (hlim : a.limit = none)
    (hspawn : ∀ L, spawned ⟨a, s.db.cur, L, []⟩ = [])
    (hsel : act.selects (s.db.cur.row k) = true) (hrun : act.run reg (s.db.cur.row k) = .ok o) :
    ∃ m s', Path (Sys.step reg) anyStep s
        (.db (.begin a) :: (List.replicate m (.db (.lock s.db.nextId)) ++
          [.db (.commit s.db.nextId)])) s' ∧
      s'.db.cur.row k = o ∧ (∀ j ≠ k, s'.db.cur.row j = s.db.cur.row j) ∧
      (∀ i, s'.db.txns i = none) ∧ s'.threads = s.threads.map (Thread.done a) := by
  have hacts : ∀ L, a.acts reg s.db.cur L k = [act] := fun L => by
    unfold Tx.acts
    rw [hst]
    simp
  have hexec : ∀ L, runActs reg (a.acts reg s.db.cur L k) (false, s.db.cur.row k) =
      .ok (!act.lockOnly, o) := fun L => by
    rw [hacts]
    show (act.exec reg _).bind _ = _
    unfold RowAct.exec
    rw [if_pos hsel, hrun]
    rfl
  obtain ⟨m, L, s₁, s', hp, hcur, hx, hnext, hLB, hc, hclosed, hths⟩ :=
    Sys.run_alone hi hidle hallow (B := [k])
      (fun L p hp => by
        rw [hst, List.mem_singleton] at hp
        rw [hp]
        exact List.mem_singleton_self k)
      (fun L hL => List.all_eq_true.2 fun j hj => by
        obtain rfl := List.mem_singleton.1 (hL hj)
        rw [hexec]
        rfl)
      (fun L _ _ => by rw [hspawn]; simp)
  have hi₁ := hi.path hp
  have hk : k ∈ L := by
    have hm : (k, act) ∈ a.stmts reg s.db.cur L := by
      rw [hst]
      exact List.mem_singleton_self _
    rcases next_none hnext hlim hm with hk | hk | hk
    · exact hk
    · exact absurd hk List.not_mem_nil
    · rw [hsel] at hk
      cases hk
  refine ⟨m, s', hp.append (.cons trivial hc (.nil _)), ?_, fun j hj => ?_, hclosed, ?_⟩
  · obtain ⟨b, hb⟩ := commit_row hi₁.wf (Sys.step_of_db hc).2 hx hk
    rw [hcur, hexec] at hb
    exact (Prod.mk.inj (Except.ok.inj hb)).2.symm
  · rw [commit_unlocked hx hc fun hm => hj (List.mem_singleton.1 (hLB hm)), hcur]
  · rw [hths, hspawn, List.nil_append]

end GenericTaskQueue
