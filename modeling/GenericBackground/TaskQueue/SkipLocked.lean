import GenericBackground.TaskQueue.Alone
import GenericBackground.TaskQueue.AutoRetry

/-!
# Batches taken with `SKIP LOCKED`

`claim_task` and the poll of failed tasks select their batch with `LIMIT … FOR UPDATE SKIP LOCKED`.
In the row store they lock one row after the other, with anything in between; `Claim` and
`AutoRetry` compute the batch in one go from a list of rows. The two agree:

1. Both transactions are scans of a list of rows with distinct ids (`Tx.scans`).
2. So a claim that commits has taken the first `limit` tasks of its query, in the order of the
   queue, of those it did not leave out, and it leaves a task out only while another transaction
   holds its row (`claim_takes_first`). A poll likewise has retried the batch that `retryBatch`
   computes (`poll_retries_batch`).
3. With no other transaction open, a claim goes through, and it leaves the rows that `claimTask`
   returns (`claim_alone`).
-/

namespace GenericTaskQueue

open RowStore Lts Query

variable {reg : Registry} {s s' : Sys} {es : List Ev} {σ : Snapshot TaskId Task}

/-! ## Scans -/

/-- The failed tasks that a poll goes through. -/
def pollSelect (reg : Registry) (w : TaskQueueWorker) (ts : List Task) : List Task :=
  ts.filter fun t => autoRetryable t ∧ t.channel ∈ w.channels ∧
    t.typeCode ∈ getEffectiveTaskTypes reg w

/-- The rows that a transaction with `LIMIT` goes through, and the limit. -/
def Tx.scan (reg : Registry) (a : Tx) (σ : Snapshot TaskId Task) : Option (List TaskId × ℕ) :=
  match a with
  | .claimTask c rank _ => some ((claimSelect c (ranked rank σ)).map Task.id, c.limit)
  | .autoRetryFailed w rank _ => some ((pollSelect reg w (ranked rank σ)).map Task.id, 10)
  | _ => none

theorem row_of_ranked (hok : σ.Ok) (hid : ∀ k, IdAt k (σ.row k)) {rank : TaskId → ℕ} {t : Task}
    (ht : t ∈ ranked rank σ) : σ.row t.id = some t := by
  obtain ⟨k, hk⟩ := (Snapshot.mem_table hok).1 (mem_ranked.1 ht)
  rw [hid k t hk, hk]

theorem table_nodup (hok : σ.Ok) (hid : ∀ k, IdAt k (σ.row k)) : (σ.table.map Task.id).Nodup := by
  unfold Snapshot.table
  have hkeys : ∀ l : List TaskId, l.Nodup → ((l.filterMap σ.row).map Task.id).Nodup ∧
      (l.filterMap σ.row).map Task.id ⊆ l := by
    intro l hl
    induction l with
    | nil => exact ⟨List.nodup_nil, List.Subset.refl _⟩
    | cons k l ih =>
      obtain ⟨hk, hl⟩ := List.nodup_cons.1 hl
      obtain ⟨hn, hsub⟩ := ih hl
      cases h : σ.row k with
      | none =>
        rw [List.filterMap_cons_none h]
        exact ⟨hn, fun j hj => List.mem_cons_of_mem k (hsub hj)⟩
      | some t =>
        rw [List.filterMap_cons_some h, List.map_cons, hid k t h]
        exact ⟨List.nodup_cons.2 ⟨fun hm => hk (hsub hm), hn⟩, List.cons_subset_cons k hsub⟩
  exact (hkeys _ hok.nodup).1

theorem ranked_nodup (hok : σ.Ok) (hid : ∀ k, IdAt k (σ.row k)) (rank : TaskId → ℕ) :
    ((ranked rank σ).map Task.id).Nodup :=
  ((List.perm_insertionSort _ _).map Task.id).nodup_iff.2 (table_nodup hok hid)

theorem claimSelect_nodup {c : ClaimArgs} {ts : List Task} (h : (ts.map Task.id).Nodup) :
    ((claimSelect c ts).map Task.id).Nodup :=
  ((List.perm_insertionSort _ _).map Task.id).nodup_iff.2 (h.sublist (List.filter_sublist.map _))

theorem scan_nodup {a : Tx} {ks : List TaskId} {n : ℕ} (hok : σ.Ok) (hid : ∀ k, IdAt k (σ.row k))
    (h : a.scan reg σ = some (ks, n)) : ks.Nodup := by
  cases a with
  | claimTask c rank uuid =>
    obtain ⟨rfl, -⟩ := Prod.mk.inj (Option.some.inj h)
    exact claimSelect_nodup (ranked_nodup hok hid rank)
  | autoRetryFailed w rank now =>
    obtain ⟨rfl, -⟩ := Prod.mk.inj (Option.some.inj h)
    exact (ranked_nodup hok hid rank).sublist (List.filter_sublist.map _)
  | _ => cases h

theorem find?_stmts {l : List Task} {act : Task → RowAct} {p : Task → Bool}
    (hsel : ∀ t ∈ l, (act t).selects (σ.row t.id) = p t) (L S : List TaskId) :
    ((l.map fun t => (t.id, act t)).find? fun q =>
        q.1 ∉ L ∧ q.1 ∉ S ∧ q.2.selects (σ.row q.1)).map Prod.fst =
      ((l.filter p).map Task.id).find? fun k => k ∉ L ∧ k ∉ S := by
  induction l with
  | nil => rfl
  | cons t l ih =>
    have ih := ih fun u hu => hsel u (List.mem_cons_of_mem t hu)
    have ht := hsel t List.mem_cons_self
    by_cases hp : p t = true
    · rw [List.filter_cons_of_pos hp, List.map_cons, List.map_cons]
      by_cases hf : t.id ∉ L ∧ t.id ∉ S
      · rw [List.find?_cons_of_pos (by simpa [ht, hp] using hf),
          List.find?_cons_of_pos (by simpa using hf)]
        rfl
      · rw [List.find?_cons_of_neg (by simpa [ht, hp] using hf),
          List.find?_cons_of_neg (by simpa using hf), ih]
    · rw [List.filter_cons_of_neg hp, List.map_cons, List.find?_cons_of_neg (by simp [ht, hp]), ih]

theorem Tx.scans {x : Txn Tx TaskId Task} {ks : List TaskId} {n : ℕ} (hok : x.snap.Ok)
    (hid : ∀ k, IdAt k (x.snap.row k)) (h : x.act.scan reg x.snap = some (ks, n)) :
    x.Scans (prog reg) ks n := by
  obtain ⟨a, σ, L₀, S₀⟩ := x
  have key : ∀ {l : List Task} {act : Task → RowAct} {p : Task → Bool},
      (∀ L, a.stmts reg σ L = l.map fun t => (t.id, act t)) → a.limit = some n →
      (∀ t ∈ l, (act t).selects (σ.row t.id) = p t) → ks = (l.filter p).map Task.id →
      Txn.Scans (prog reg) ks n ⟨a, σ, L₀, S₀⟩ := by
    rintro l act p hst hlim hsel rfl L S
    show Option.map Prod.snd ((prog reg).next a σ L S) = _
    simp only [prog, hlim, Option.any_some, decide_eq_true_eq]
    split_ifs with hn
    · rfl
    · rw [hst, ← find?_stmts hsel, Option.map_map]
      rfl
  cases a with
  | claimTask c rank uuid =>
    obtain ⟨rfl, rfl⟩ := Prod.mk.inj (Option.some.inj h)
    refine key (fun _ => rfl) rfl (p := fun _ => true) (fun t ht => ?_) (by simp)
    rw [row_of_ranked hok hid (claimSelect_pending ht).1]
    rfl
  | autoRetryFailed w rank now =>
    obtain ⟨rfl, rfl⟩ := Prod.mk.inj (Option.some.inj h)
    refine key (fun _ => rfl) rfl (p := autoRetryable) (fun t ht => ?_) ?_
    · rw [row_of_ranked hok hid (List.mem_of_mem_filter ht)]
      rfl
    · rw [List.filter_filter]
      unfold pollSelect
      congr 2
      funext t
      simp
  | _ => cases h

/-! ## Batches of a run -/

theorem Start.scanned (h : Start s) : s.db.Scanned (prog reg) :=
  fun _ _ _ _ hx => absurd hx h.closed

theorem Sys.scanned {ok : Sys → Ev → Prop} (h0 : Start s) (hp : Path (Sys.step reg) ok s es s') :
    s'.db.Scanned (prog reg) :=
  hp.inv (I := fun s => s.db.Scanned (prog reg)) (fun s ev s' hs _ h => by
    rcases Sys.step_db h with ⟨e, rfl, -, hst⟩ | ⟨-, hdb⟩
    · exact hst.scanned hs
    · rw [hdb]
      exact hs) h0.scanned

/-- A transaction leaves a row out only while another one holds it. -/
theorem left_out {s₀ : Sys} (h0 : Start s₀) (hp : Path (Sys.step reg) anyStep s₀ es s) {i : ℕ}
    {x : Txn Tx TaskId Task} (hx : s.db.txns i = some x) {k : TaskId} (hk : k ∈ x.skipped) :
    ∃ s₁ s₂, Takes (Sys.step reg) s₀ es s₁ (.db (.skip i)) s₂ ∧
      ∃ j, j ≠ i ∧ s₁.db.holds j k = true := by
  refine hp.inv_history (I := fun es s => ∀ i x k, s.db.txns i = some x → k ∈ x.skipped →
    ∃ s₁ s₂, Takes (Sys.step reg) s₀ es s₁ (.db (.skip i)) s₂ ∧
      ∃ j, j ≠ i ∧ s₁.db.holds j k = true) ?_ (fun i x k hx => absurd hx h0.closed) i x k hx hk
  intro h s ev s' hp hI _ hst i x' k hx' hk
  obtain ⟨x, hx, -, -, hold | ⟨rfl, -, hfree⟩⟩ := Sys.step_skipped hst hx' hk
  · obtain ⟨s₁, s₂, ht, hj⟩ := hI i x k hx hold
    exact ⟨s₁, s₂, ht.append _, hj⟩
  · refine ⟨s, s', ⟨h, [], rfl, hp, hst⟩, ?_⟩
    unfold Db.Free at hfree
    push Not at hfree
    obtain ⟨j, -, hj, hh⟩ := hfree
    exact ⟨j, hj, by simpa using hh⟩

theorem commit_locked {s₀ : Sys} (h0 : Start s₀) (hp : Path (Sys.step reg) anyStep s₀ es s) {i : ℕ}
    {x : Txn Tx TaskId Task} (hx : s.db.txns i = some x)
    (hc : s.step reg (.db (.commit i)) = some s') {ks : List TaskId} {n : ℕ}
    (h : x.act.scan reg x.snap = some (ks, n)) :
    x.locked.reverse = (ks.filter (· ∉ x.skipped)).take n := by
  have hi : Inv reg s := h0.inv.path hp
  have hok := (hi.wf.txn i x hx).snap
  have hsc := Tx.scans hok (hi.snapIds i x hx) h
  have hn := scan_nodup hok (hi.snapIds i x hx) h
  obtain ⟨seen, rest, hseen⟩ := Sys.scanned h0 hp i x ks n hx hsc hn
  obtain ⟨y, hy, hask, -⟩ := (Sys.step_of_db hc).2.commit_inv
  obtain rfl := Option.some.inj (hx.symm.trans hy)
  exact hseen.locked_eq hsc hn hask

theorem acts_of_map {a : Tx} {L : List TaskId} {l : List Task} (act : Task → RowAct)
    (hst : a.stmts reg σ L = l.map fun t => (t.id, act t)) (hn : (l.map Task.id).Nodup) {t : Task}
    (ht : t ∈ l) : a.acts reg σ L t.id = [act t] := by
  unfold Tx.acts
  rw [hst]
  clear hst
  induction l with
  | nil => exact absurd ht List.not_mem_nil
  | cons u l ih =>
    obtain ⟨hu, hn⟩ := List.nodup_cons.1 hn
    rcases List.mem_cons.1 ht with rfl | ht
    · have hrest : (l.map fun t => (t.id, act t)).filter (fun p => p.1 = t.id) = [] := by
        rw [List.filter_eq_nil_iff]
        intro p hp
        obtain ⟨v, hv, rfl⟩ := List.mem_map.1 hp
        simpa using fun he : v.id = t.id => hu (he ▸ List.mem_map_of_mem hv)
      rw [List.map_cons, List.filter_cons_of_pos (by simp), hrest]
      rfl
    · have hne : u.id ≠ t.id := fun he => hu (he ▸ List.mem_map_of_mem ht)
      rw [List.map_cons, List.filter_cons_of_neg (by simpa using hne)]
      exact ih hn ht

theorem commit_batch {s₀ : Sys} (h0 : Start s₀) (hp : Path (Sys.step reg) anyStep s₀ es s) {i : ℕ}
    {x : Txn Tx TaskId Task} (hx : s.db.txns i = some x)
    (hc : s.step reg (.db (.commit i)) = some s') {l : List Task} (act : Task → RowAct)
    (hst : x.act.stmts reg x.snap x.locked = l.map fun t => (t.id, act t))
    (hn : (l.map Task.id).Nodup) {t : Task} (ht : t ∈ l) (hl : t.id ∈ x.locked)
    (hrow : x.snap.row t.id = some t) :
    s.db.cur.row t.id = some t ∧
      ∃ b, (act t).exec reg (false, some t) = .ok (b, s'.db.cur.row t.id) := by
  have hi : Inv reg s := h0.inv.path hp
  have hcur : s.db.cur.row t.id = some t := by
    rw [← (hi.wf.txn i x hx).locked_row hl, hrow]
  obtain ⟨b, hrun⟩ := commit_row hi.wf (Sys.step_of_db hc).2 hx hl
  rw [acts_of_map act hst hn ht, hcur] at hrun
  obtain ⟨q, hq, hrest⟩ := runActs_cons hrun
  obtain rfl := Except.ok.inj hrest
  exact ⟨hcur, b, hq⟩

/-! ## Claims -/

/-- The tasks that a claim takes: the first `limit` of its query, but for those it leaves out. -/
def taken (c : ClaimArgs) (ts : List Task) (skipped : List TaskId) : List Task :=
  ((claimSelect c ts).filter (·.id ∉ skipped)).take c.limit

theorem mem_taken {c : ClaimArgs} {ts : List Task} {skipped : List TaskId} {t : Task}
    (h : t ∈ taken c ts skipped) : t ∈ claimSelect c ts :=
  List.mem_of_mem_filter (List.mem_of_mem_take h)

theorem taken_ids (c : ClaimArgs) (ts : List Task) (skipped : List TaskId) :
    (taken c ts skipped).map Task.id =
      (((claimSelect c ts).map Task.id).filter (· ∉ skipped)).take c.limit := by
  unfold taken
  rw [List.map_take, List.filter_map]
  rfl

theorem claim_locks {s₀ : Sys} (h0 : Start s₀) (hp : Path (Sys.step reg) anyStep s₀ es s)
    {i : ℕ} {x : Txn Tx TaskId Task} {c : ClaimArgs} {rank : TaskId → ℕ} {uuid : TaskId → RunnerId}
    (hx : s.db.txns i = some x) (ha : x.act = .claimTask c rank uuid)
    (hc : s.step reg (.db (.commit i)) = some s') :
    x.locked.reverse = (taken c (ranked rank x.snap) x.skipped).map Task.id := by
  rw [taken_ids]
  exact commit_locked h0 hp hx hc (by rw [ha]; rfl)

theorem claim_assigns {s₀ : Sys} (h0 : Start s₀) (hp : Path (Sys.step reg) anyStep s₀ es s)
    {i : ℕ} {x : Txn Tx TaskId Task} {c : ClaimArgs} {rank : TaskId → ℕ} {uuid : TaskId → RunnerId}
    (hx : s.db.txns i = some x) (ha : x.act = .claimTask c rank uuid)
    (hc : s.step reg (.db (.commit i)) = some s') {t : Task}
    (ht : t ∈ taken c (ranked rank x.snap) x.skipped) : s.db.cur.row t.id = some t ∧
      s'.db.cur.row t.id = some (t.assigned c.worker (uuid t.id)) := by
  have hi : Inv reg s := h0.inv.path hp
  have hok := (hi.wf.txn i x hx).snap
  have hid := hi.snapIds i x hx
  have hsel := mem_taken ht
  have hl : t.id ∈ x.locked :=
    List.mem_reverse.1 (claim_locks h0 hp hx ha hc ▸ List.mem_map_of_mem ht)
  obtain ⟨hcur, b, hexec⟩ := commit_batch h0 hp hx hc
    (fun t => .assign c.worker (uuid t.id)) (by rw [ha]; rfl)
    (claimSelect_nodup (ranked_nodup hok hid rank)) hsel hl
    (row_of_ranked hok hid (claimSelect_pending hsel).1)
  refine ⟨hcur, ?_⟩
  rcases assign_exec hexec with ⟨hnone, -⟩ | ⟨u, hu, -, hq⟩
  · cases hnone
  · obtain rfl := Option.some.inj hu
    exact (Prod.mk.inj hq).2

/-- **Claims in order.** A claim that commits takes the first `limit` tasks that its query returns,
in the order of the queue, but for those it leaves out; it finds them as in its snapshot, assigns
them, and changes nothing else. A task is left out only while another transaction holds its row. -/
theorem claim_takes_first {s₀ : Sys} (h0 : Start s₀) (hp : Path (Sys.step reg) anyStep s₀ es s)
    {i : ℕ} {x : Txn Tx TaskId Task} {c : ClaimArgs} {rank : TaskId → ℕ} {uuid : TaskId → RunnerId}
    (hx : s.db.txns i = some x) (ha : x.act = .claimTask c rank uuid)
    (hc : s.step reg (.db (.commit i)) = some s') :
    (∀ t ∈ taken c (ranked rank x.snap) x.skipped, s.db.cur.row t.id = some t ∧
      s'.db.cur.row t.id = some (t.assigned c.worker (uuid t.id))) ∧
    (∀ k, k ∉ (taken c (ranked rank x.snap) x.skipped).map Task.id →
      s'.db.cur.row k = s.db.cur.row k) ∧
    ∀ k ∈ x.skipped, ∃ s₁ s₂, Takes (Sys.step reg) s₀ es s₁ (.db (.skip i)) s₂ ∧
      ∃ j, j ≠ i ∧ s₁.db.holds j k = true := by
  refine ⟨fun t => claim_assigns h0 hp hx ha hc, fun k hk => commit_unlocked hx hc ?_,
    fun k => left_out h0 hp hx⟩
  rwa [← claim_locks h0 hp hx ha hc, List.mem_reverse] at hk

def exportQueue : Table where
  rows := [
    { id := 1, name := "a", typeCode := "export", dateCreated := 10, createUid := 2 },
    { id := 2, name := "b", typeCode := "export", dateCreated := 20, createUid := 2 },
    { id := 3, name := "c", typeCode := "export", dateCreated := 30, createUid := 2 }]
  nodup := by decide

/-- Two workers claim at the same time. -/
def claimsMeet : List Ev := [
  .db (.begin (.claimTask (exportClaim 1) id fun _ => 7)),
  .db (.begin (.claimTask (exportClaim 1) id fun _ => 8)),
  .db (.lock 0), .db (.skip 1), .db (.lock 1), .db (.commit 0)]

/-- The second claim leaves out the first task and takes the second. -/
theorem claimsMeet_takes : ∃ s s' x,
    Path (Sys.step []) anyStep (Sys.init exportQueue) claimsMeet s ∧
    s.db.txns 1 = some x ∧ s.step [] (.db (.commit 1)) = some s' ∧ x.skipped = [1] ∧
    ((taken (exportClaim 1) (ranked id x.snap) x.skipped).map Task.id = [2] ∧
      ∀ t ∈ taken (exportClaim 1) (ranked id x.snap) x.skipped, s.db.cur.row t.id = some t ∧
        s'.db.cur.row t.id = some (t.assigned 1 8)) ∧
    s'.db.cur.row 3 = s.db.cur.row 3 := by
  have hp : Path (Sys.step []) anyStep (Sys.init exportQueue) claimsMeet (reached _ _ _ _) :=
    path_reached (by decide +kernel)
  have hc : (reached (Sys.step []) anyStep (Sys.init exportQueue) claimsMeet).step []
      (.db (.commit 1)) = some (reached _ anyStep _ _) := step_reached (by decide +kernel)
  obtain ⟨h1, h2, -⟩ := claim_takes_first (Start.init (by decide)) hp (i := 1)
    (c := exportClaim 1)  rfl rfl hc
  exact ⟨_, _, _, hp, rfl, hc, by decide +kernel, ⟨by decide +kernel, h1⟩, h2 3 (by decide +kernel)⟩

/-! ## Polls -/

instance rankTotal (rank : TaskId → ℕ) :
    Std.Total fun a b : Task => rank a.id ≤ rank b.id :=
  ⟨fun a b => Nat.le_total (rank a.id) (rank b.id)⟩

instance rankTrans (rank : TaskId → ℕ) : IsTrans Task fun a b => rank a.id ≤ rank b.id :=
  ⟨fun _ _ _ => Nat.le_trans⟩

/-- What the query of a poll returns, but for what is left out, is the batch. -/
theorem retryBatch_eq (σ : Snapshot TaskId Task) {w : TaskQueueWorker} {rank : TaskId → ℕ}
    {skipped : List TaskId} {T : Table} (hT : T.rows = σ.table) : retryBatch reg w skipped rank T =
      ((pollSelect reg w (ranked rank σ)).filter (·.id ∉ skipped)).take 10 := by
  have hranked : ranked rank σ =
      select (fun a b : Task => rank a.id ≤ rank b.id) (fun _ => true) σ.table := by
    unfold ranked select
    rw [List.filter_true]
  unfold retryBatch pollSelect
  rw [hranked, filter_select, List.filter_true, filter_select, hT]
  unfold select
  rw [List.filter_filter]
  congr 3
  funext t
  rw [← Bool.decide_and, decide_eq_decide]
  tauto

/-- **The poll of failed tasks.** A poll that commits has retried the batch computed from the rows
of its snapshot, where the rows that others held are those it left out; it finds them as in the
snapshot, and changes nothing else. -/
theorem poll_retries_batch {s₀ : Sys} (h0 : Start s₀) (hp : Path (Sys.step reg) anyStep s₀ es s)
    {i : ℕ} {x : Txn Tx TaskId Task} {w : TaskQueueWorker} {rank : TaskId → ℕ} {now : ℕ}
    (hx : s.db.txns i = some x) (ha : x.act = .autoRetryFailed w rank now)
    (hc : s.step reg (.db (.commit i)) = some s') :
    ∃ T : Table, T.rows = x.snap.table ∧
      (∀ t ∈ retryBatch reg w x.skipped rank T, s.db.cur.row t.id = some t ∧
        s'.db.cur.row t.id = some (retried reg now t)) ∧
      (∀ k, k ∉ (retryBatch reg w x.skipped rank T).map Task.id →
        s'.db.cur.row k = s.db.cur.row k) ∧
      ∀ k ∈ x.skipped, ∃ s₁ s₂, Takes (Sys.step reg) s₀ es s₁ (.db (.skip i)) s₂ ∧
        ∃ j, j ≠ i ∧ s₁.db.holds j k = true := by
  have hi : Inv reg s := h0.inv.path hp
  have hok := (hi.wf.txn i x hx).snap
  have hid := hi.snapIds i x hx
  refine ⟨⟨x.snap.table, table_nodup hok hid⟩, rfl, ?_⟩
  have hlocked : x.locked.reverse = (retryBatch reg w x.skipped rank
      ⟨x.snap.table, table_nodup hok hid⟩).map Task.id := by
    rw [retryBatch_eq x.snap rfl, commit_locked h0 hp hx hc (by rw [ha]; rfl),
      List.filter_map, ← List.map_take]
    rfl
  refine ⟨fun t ht => ?_, fun k hk => commit_unlocked hx hc ?_, fun k => left_out h0 hp hx⟩
  · have hl : t.id ∈ x.locked := List.mem_reverse.1 (hlocked ▸ List.mem_map_of_mem ht)
    rw [retryBatch_eq x.snap rfl] at ht
    have hsel := List.mem_of_mem_filter (List.mem_of_mem_take ht)
    obtain ⟨hm, hq⟩ := List.mem_filter.1 hsel
    obtain ⟨hretry, hch, htype⟩ := of_decide_eq_true hq
    obtain ⟨hcur, b, hexec⟩ := commit_batch h0 hp hx hc (fun _ => .autoRetry now)
      (l := (ranked rank x.snap).filter fun t => t.channel ∈ w.channels ∧
        t.typeCode ∈ getEffectiveTaskTypes reg w) (by rw [ha]; rfl)
      ((ranked_nodup hok hid rank).sublist (List.filter_sublist.map _))
      (List.mem_filter.2 ⟨hm, decide_eq_true ⟨hch, htype⟩⟩) hl (row_of_ranked hok hid hm)
    refine ⟨hcur, ?_⟩
    rcases RowAct.exec_run hexec with ⟨-, hr, -⟩ | ⟨hsel, -⟩
    · exact (Except.ok.inj hr).symm
    · exact absurd (show (RowAct.autoRetry now).selects (some t) = true from hretry)
        (Bool.eq_false_iff.1 hsel)
  · rw [← hlocked, List.mem_reverse] at hk
    exact hk

def failedExports : Table where
  rows := [
    { id := 1, name := "a", typeCode := "export", state := .failed, retryPolicy := .retryAny
      maxRetries := 3, dateCreated := 10, createUid := 2 },
    { id := 2, name := "b", typeCode := "export", state := .failed, retryPolicy := .retryAny
      maxRetries := 3, dateCreated := 20, createUid := 2 }]
  nodup := by decide

/-- A user writes the first task while a worker polls. -/
def pollMeetsWrite : List Ev := [
  .db (.begin (.user [(1, .write {})])), .db (.lock 0),
  .db (.begin (.autoRetryFailed exportWorker id 100)), .db (.skip 1), .db (.lock 1)]

theorem pollMeetsWrite_retries : ∃ s s' x,
    Path (Sys.step [("export", {})]) anyStep (Sys.init failedExports) pollMeetsWrite s ∧
    s.db.txns 1 = some x ∧ s.step [("export", {})] (.db (.commit 1)) = some s' ∧
    x.skipped = [1] ∧ (s'.db.cur.row 2).map Task.state = some .pending ∧
    ∃ T : Table, T.rows = x.snap.table ∧
      ∀ t ∈ retryBatch [("export", {})] exportWorker x.skipped id T,
        s'.db.cur.row t.id = some (retried [("export", {})] 100 t) := by
  have hp : Path (Sys.step [("export", {})]) anyStep (Sys.init failedExports) pollMeetsWrite
      (reached _ _ _ _) := path_reached (by decide +kernel)
  have hc : (reached (Sys.step [("export", {})]) anyStep (Sys.init failedExports)
      pollMeetsWrite).step [("export", {})] (.db (.commit 1)) = some (reached _ anyStep _ _) :=
    step_reached (by decide +kernel)
  obtain ⟨T, hT, h1, -⟩ := poll_retries_batch (Start.init (by decide)) hp (i := 1)
    (w := exportWorker)  rfl rfl hc
  exact ⟨_, _, _, hp, rfl, hc, by decide +kernel, by decide +kernel, T, hT, fun t ht => (h1 t ht).2⟩

/-! ## A claim on its own -/

/-- The uuids in the order in which the rows come. -/
def uuids (runner : ℕ → RunnerId) (ks : List TaskId) (k : TaskId) : RunnerId :=
  runner (ks.idxOf k)

theorem claimTask_uuids {c : ClaimArgs} {runner : ℕ → RunnerId} {ts : List Task}
    (hn : (ts.map Task.id).Nodup) : claimTask c runner ts = .ok ((taken c ts []).map fun t =>
      t.assigned c.worker (uuids runner ((claimSelect c ts).map Task.id) t.id)) := by
  have htaken : taken c ts [] = (claimSelect c ts).take c.limit := by
    unfold taken
    rw [List.filter_eq_self.2 (by simp)]
  rw [claimTask_eq, htaken]
  congr 1
  refine List.ext_getElem (by simp) fun j h1 h2 => ?_
  have hj : j < ((claimSelect c ts).map Task.id).length := by
    simp only [List.length_map, List.length_take] at h2 ⊢
    omega
  -- the `j`-th row is found at `j`
  have hidx := (claimSelect_nodup (c := c) hn).idxOf_getElem j hj
  simp only [List.getElem_map] at hidx
  simp only [List.getElem_map, List.getElem_zipIdx, List.getElem_take, uuids, hidx, Nat.zero_add]

theorem claim_valid {c : ClaimArgs} {rank : TaskId → ℕ} {uuid : TaskId → RunnerId} {L : List TaskId}
    (hok : σ.Ok) (hid : ∀ k, IdAt k (σ.row k))
    (hl : L ⊆ (claimSelect c (ranked rank σ)).map Task.id) :
    (prog reg).valid (.claimTask c rank uuid) σ L = true := by
  refine List.all_eq_true.2 fun k hk => ?_
  obtain ⟨t, ht, rfl⟩ := List.mem_map.1 (hl hk)
  obtain ⟨hm, hcl⟩ := claimSelect_pending ht
  rw [acts_of_map (fun t => .assign c.worker (uuid t.id)) rfl
    (claimSelect_nodup (ranked_nodup hok hid rank)) ht, row_of_ranked hok hid hm]
  have hrun : (RowAct.assign c.worker (uuid t.id)).run reg (some t) =
      .ok (some (t.assigned c.worker (uuid t.id))) := by
    show (claimRow c.worker (uuid t.id) t).map some = _
    rw [claimRow_ok (claimable_iff.1 hcl).1]
    rfl
  simp [runActs, RowAct.exec, RowAct.selects, hrun, Except.bind, Except.map, Except.isOk,
    Except.toBool]

/-- With no other transaction open, a claim that draws new uuids goes through. -/
theorem claim_run {s₀ : Sys} (h0 : Start s₀) (hp : Path (Sys.step reg) anyStep s₀ es s)
    (hidle : ∀ i, s.db.txns i = none) (c : ClaimArgs) (rank : TaskId → ℕ) (uuid : TaskId → RunnerId)
    (hinj : ∀ j ∈ (claimSelect c (ranked rank s.db.cur)).map Task.id,
      ∀ k ∈ (claimSelect c (ranked rank s.db.cur)).map Task.id, uuid j = uuid k → j = k)
    (hnew : ∀ k, uuid k ∉ s.threads.map Thread.runner) :
    ∃ m s', Path (Sys.step reg) anyStep s (.db (.begin (.claimTask c rank uuid)) ::
        (List.replicate m (.db (.lock s.db.nextId)) ++ [.db (.commit s.db.nextId)])) s' ∧
      (∀ i, s'.db.txns i = none) ∧
      (∀ t ∈ taken c (ranked rank s.db.cur) [],
        s'.db.cur.row t.id = some (t.assigned c.worker (uuid t.id)) ∧
          { runner := uuid t.id, task := t.id, worker := c.worker } ∈ s'.threads) ∧
      ∀ k, k ∉ (taken c (ranked rank s.db.cur) []).map Task.id →
        s'.db.cur.row k = s.db.cur.row k := by
  have hi : Inv reg s := h0.inv.path hp
  have hn := ranked_nodup hi.wf.cur hi.ids rank
  obtain ⟨m, L, s₁, s', hrun, hcur, hx, hask, hLB, hc, hclosed, hths⟩ :=
    Sys.run_alone (a := .claimTask c rank uuid) hi hidle rfl
      (B := (claimSelect c (ranked rank s.db.cur)).map Task.id)
      (fun L p hm => by
        obtain ⟨t, ht, rfl⟩ := List.mem_map.1 hm
        exact List.mem_map_of_mem ht)
      (fun L hL => claim_valid hi.wf.cur hi.ids hL)
      (fun L hL hnd => by
        have hrunners : (spawned ⟨.claimTask c rank uuid, s.db.cur, L, []⟩).map Thread.runner =
            L.map uuid := by
          show (L.map _).map _ = _
          rw [List.map_map]
          rfl
        rw [hrunners]
        refine ⟨List.Nodup.map_on (fun j hj k hk => hinj j (hL hj) k (hL hk)) hnd, fun r hr => ?_⟩
        obtain ⟨k, -, rfl⟩ := List.mem_map.1 hr
        exact hnew k)
  have hp₁ := hp.append hrun
  have hlocked : L.reverse = (taken c (ranked rank s.db.cur) []).map Task.id := by
    have hsc : Txn.Scans (prog reg) _ _ ⟨.claimTask c rank uuid, s.db.cur, L, []⟩ :=
      Tx.scans hi.wf.cur hi.ids rfl
    have hnd := claimSelect_nodup (c := c) hn
    obtain ⟨seen, rest, hseen⟩ := Sys.scanned h0 hp₁ _ _ _ _ hx hsc hnd
    rw [taken_ids]
    exact hseen.locked_eq hsc hnd hask
  refine ⟨m, s', hrun.append (.cons trivial hc (.nil _)), hclosed, fun t ht => ⟨?_, ?_⟩,
    fun k hk => ?_⟩
  · exact (claim_assigns h0 hp₁ hx rfl hc ht).2
  · rw [hths]
    refine List.mem_append_left _ (List.mem_map.2 ⟨t.id, ?_, rfl⟩)
    rw [← List.mem_reverse, hlocked]
    exact List.mem_map_of_mem ht
  · rw [commit_unlocked hx hc fun hL => hk (hlocked ▸ List.mem_reverse.2 hL), hcur]

/-- **A claim alone.** With no other transaction open, a claim goes through, and it leaves the rows
that `claimTask` computes from the table, each with a thread for its runner. -/
theorem claim_alone {s₀ : Sys} (h0 : Start s₀) (hp : Path (Sys.step reg) anyStep s₀ es s)
    (hidle : ∀ i, s.db.txns i = none) (c : ClaimArgs) (rank : TaskId → ℕ) (runner : ℕ → RunnerId)
    (hinj : Function.Injective runner) (hnew : ∀ j, runner j ∉ s.threads.map Thread.runner) :
    ∃ m s' claimed, Path (Sys.step reg) anyStep s
      (.db (.begin (.claimTask c rank
          (uuids runner ((claimSelect c (ranked rank s.db.cur)).map Task.id)))) ::
        (List.replicate m (.db (.lock s.db.nextId)) ++ [.db (.commit s.db.nextId)])) s' ∧
      claimTask c runner (ranked rank s.db.cur) = .ok claimed ∧
      (∀ t ∈ claimed, s'.db.cur.row t.id = some t ∧ ∃ th ∈ s'.threads, th.task = t.id ∧
        t.runnerId = some th.runner ∧ th.worker = c.worker ∧ th.phase = .spawned) ∧
      ∀ k, k ∉ claimed.map Task.id → s'.db.cur.row k = s.db.cur.row k := by
  have hn : ((ranked rank s.db.cur).map Task.id).Nodup := by
    have hi : Inv reg s := h0.inv.path hp
    exact ranked_nodup hi.wf.cur hi.ids rank
  obtain ⟨m, s', hrun, -, htaken, hrest⟩ := claim_run h0 hp hidle c rank
    (uuids runner ((claimSelect c (ranked rank s.db.cur)).map Task.id))
    (fun j hj k _ heq => (List.idxOf_inj hj).1 (hinj heq)) (fun _ => hnew _)
  refine ⟨m, s', _, hrun, claimTask_uuids hn, fun t' ht' => ?_, fun k hk => hrest k fun hm => hk ?_⟩
  · obtain ⟨t, ht, rfl⟩ := List.mem_map.1 ht'
    obtain ⟨hrow, hth⟩ := htaken t ht
    exact ⟨hrow, _, hth, rfl, rfl, rfl, rfl⟩
  · obtain ⟨t, ht, rfl⟩ := List.mem_map.1 hm
    exact List.mem_map.2 ⟨_, List.mem_map_of_mem ht, rfl⟩

theorem exportQueue_claim : ∃ m s' claimed, Path (Sys.step []) anyStep (Sys.init exportQueue)
      (.db (.begin (.claimTask (exportClaim 2) id (uuids (7 + ·) ((claimSelect (exportClaim 2)
          (ranked id (Sys.init exportQueue).db.cur)).map Task.id)))) ::
        (List.replicate m (.db (.lock 0)) ++ [.db (.commit 0)])) s' ∧
    claimTask (exportClaim 2) (7 + ·) (ranked id (Sys.init exportQueue).db.cur) = .ok claimed ∧
    claimed.map Task.id = [1, 2] ∧ (∀ t ∈ claimed, s'.db.cur.row t.id = some t) ∧
    s'.db.cur.row 3 = exportQueue.get 3 := by
  have hnil : Path (Sys.step []) anyStep (Sys.init exportQueue) [] _ := .nil _
  obtain ⟨m, s', claimed, hp, hclaim, h1, h2⟩ := claim_alone (Start.init (by decide)) hnil
    (fun _ => rfl) (exportClaim 2) id (7 + ·) (add_right_injective 7) fun _ => List.not_mem_nil
  have hids : claimed.map Task.id = [1, 2] := by
    have hran : ((claimTask (exportClaim 2) (7 + ·) (ranked id
        (Sys.init exportQueue).db.cur)).toOption.map (List.map Task.id)) = some [1, 2] := by
      decide +kernel
    rw [hclaim] at hran
    exact Option.some.inj hran
  exact ⟨m, s', claimed, hp, hclaim, hids, fun t ht => (h1 t ht).1,
    h2 3 (by rw [hids]; decide)⟩

end GenericTaskQueue
