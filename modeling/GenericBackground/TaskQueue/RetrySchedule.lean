import GenericBackground.TaskQueue.Cancellation

/-!
# The retry schedule

A task type declares how long to wait before the `n`-th retry: the key of `_retry_delays` is the
value of `retry_count` after the failure. The three places that retry a task automatically (the
failure handler of its thread, crash recovery, and the poll of failed tasks) look the delay up
before `_action_auto_retry` counts the attempt, so each of them reads the entry of the retry before.
The poll, moreover, counts from the time of the poll.

The automatic retries of a task along a run are its `retryLog`. Its `n`-th entry is on schedule
exactly if these two slips cancel out (`retry_on_schedule_iff`).
-/

namespace GenericTaskQueue

open RowStore Lts

variable {reg : Registry} {s s' : Sys} {ev : Ev} {k : TaskId}

/-! ## The schedule -/

/-- The delay that a task type declares for the `n`-th retry, in seconds. -/
def RetryDelays.delay (d : RetryDelays) (n : ℕ) : ℕ :=
  match d with
  | .table delays => (delays.lookup (n : ℤ)).getD 0
  | .exponential => min (2 ^ n) 3600

/-- When the `n`-th retry after a failure is due; `none` is at once. -/
def RetryDelays.due (d : RetryDelays) (n failedAt : ℕ) : Option ℕ :=
  if d.delay n = 0 then none else some (failedAt + d.delay n)

/-- A retry at `now` after a failure at `failedAt`, with the delay of the retry before it, comes as
declared for the `n + 1`-st. -/
def RetryDelays.OnTime (d : RetryDelays) (n failedAt now : ℕ) : Prop :=
  (d.delay n = 0 ↔ d.delay (n + 1) = 0) ∧
    (d.delay (n + 1) ≠ 0 → now + d.delay n = failedAt + d.delay (n + 1))

theorem retryEta_eq {code : TypeCode} {cls : TaskType} (h : reg.lookup code = some cls)
    (now n : ℕ) : retryEta reg now code n = cls.retryDelays.due n now := by
  unfold retryEta RetryDelays.due RetryDelays.delay
  rw [h]
  cases hd : cls.retryDelays <;> simp only [hd, Int.toNat_natCast]

theorem due_eq_iff {d : RetryDelays} {n failedAt now : ℕ} :
    d.due n now = d.due (n + 1) failedAt ↔ d.OnTime n failedAt now := by
  unfold RetryDelays.due RetryDelays.OnTime
  split_ifs with h h' h' <;> simp [h, h']

/-- Without a wait between failure and retry, the delays of both entries have to be the same. -/
theorem onTime_self_iff {d : RetryDelays} {n t : ℕ} :
    d.OnTime n t t ↔ d.delay n = d.delay (n + 1) := by
  unfold RetryDelays.OnTime
  omega

/-- The exponential delays agree only once the cap is reached. -/
theorem exponential_onTime_iff {n t : ℕ} : RetryDelays.exponential.OnTime n t t ↔ 12 ≤ n := by
  rw [onTime_self_iff]
  show min (2 ^ n) 3600 = min (2 ^ (n + 1)) 3600 ↔ 12 ≤ n
  constructor
  · intro h
    by_contra hn
    have hle : 2 ^ n ≤ 2 ^ 11 := Nat.pow_le_pow_right (by decide) (by omega)
    have hpos : 0 < 2 ^ n := Nat.two_pow_pos n
    rw [Nat.pow_succ] at h
    omega
  · intro hn
    have hle : 2 ^ 12 ≤ 2 ^ n := Nat.pow_le_pow_right (by decide) hn
    rw [Nat.pow_succ]
    omega

/-! ## The retries of a run -/

/-- An automatic retry: the task before and after, when it had failed, when it is retried, and the
delay that a `RetryTask` has given. -/
structure Retry where
  before : Task
  after : Task
  failedAt : ℕ
  now : ℕ
  given : Option ℕ
  deriving DecidableEq, Repr

def Exc.after : Exc → Option ℕ
  | .retryTask after => after
  | _ => none

/-- The statement retries the task automatically: when the task failed, when it is retried, and the
delay given. The poll finds a task that has failed at its `date_completed`. -/
def RowAct.requeues (a : RowAct) (t : Task) : Option (ℕ × ℕ × Option ℕ) :=
  match a with
  | .failure _ now exc _ read =>
    if retriesFailure exc (read.getD t) then some (now, now, exc.after) else none
  | .lostExecution _ _ now _ =>
    if t.state ≠ .assigned ∧ t.retryPolicy ≠ .noRetry ∧ t.retryCount < t.maxRetries then
      some (now, now, none) else none
  | .autoRetry now => some (t.dateCompleted.getD now, now, none)
  | _ => none

/-- The automatic retry of a statement that leaves `o`. -/
def RowAct.retry (a : RowAct) (o o' : Option Task) : Option Retry :=
  match o, o' with
  | some t, some t' => if a.selects (some t) then
      (a.requeues t).map fun p => ⟨t, t', p.1, p.2.1, p.2.2⟩ else none
  | _, _ => none

/-- The automatic retries by the statements of a transaction on one row. -/
def retriesOf (reg : Registry) : List RowAct → Bool × Option Task → List Retry
  | [], _ => []
  | a :: acts, p =>
    match a.exec reg p with
    | .ok p' => (a.retry p.2 p'.2).toList ++ retriesOf reg acts p'
    | .error _ => []

/-- The automatic retries of task `k` in a step. -/
def Sys.autoRetries (reg : Registry) (k : TaskId) (s : Sys) : Ev → List Retry
  | .db (.commit i) => (s.db.txns i).elim [] fun x => if k ∈ x.locked then
      retriesOf reg (x.act.acts reg x.snap x.locked k) (false, s.db.cur.row k) else []
  | _ => []

/-- The automatic retries of task `k` along a run. -/
def retryLog (reg : Registry) (k : TaskId) (s : Sys) (es : List Ev) : List Retry :=
  emitted (Sys.step reg) (Sys.autoRetries reg k) s es

/-- The delay is the one given, or the one that the schedule has for the retries counted so far. -/
def Retry.Regular (reg : Registry) (r : Retry) : Prop :=
  r.after.eta = match r.given with
    | some after => some (r.now + after)
    | none => retryEta reg r.now r.before.typeCode r.before.retryCount

/-! ## One statement -/

theorem handleFailure_eta {now : ℕ} {exc : Exc} {tb : String} {t t' : Task}
    (h : handleFailure reg now exc tb t t = .ok t') (hr : retriesFailure exc t = true) :
    t'.retryCount = t.retryCount + 1 ∧ t'.eta = match exc.after with
      | some after => some (now + after)
      | none => retryEta reg now t.typeCode t.retryCount := by
  unfold handleFailure at h
  rw [if_pos hr] at h
  obtain rfl := Except.ok.inj h
  refine ⟨rfl, ?_⟩
  rcases exc with after | _ | _
  · cases after <;> rfl
  · rfl
  · rfl

theorem RowAct.retry_counts {a : RowAct} {t t' : Task} (hcmp : Compared a t)
    (hs : a.selects (some t) = true) (h : a.run reg (some t) = .ok (some t')) :
    (a.requeues t).elim (t'.retryCount = t.retryCount) fun p =>
      t'.retryCount = t.retryCount + 1 ∧ (⟨t, t', p.1, p.2.1, p.2.2⟩ : Retry).Regular reg := by
  change a.onTask reg t = .ok (some t') at h
  cases a with
  | failure runner now exc traceback read =>
    have hu := ok_of_map_some h
    show Option.elim (if retriesFailure exc (read.getD t) then some (now, now, exc.after) else none)
      _ _
    by_cases hr : retriesFailure exc (read.getD t) = true
    · rw [if_pos hr]
      rw [hcmp _ _ _ _ _ rfl hr] at hu hr
      exact handleFailure_eta hu hr
    · rw [if_neg hr]
      rcases handleFailure_cases hu with ⟨hr', -⟩ | ⟨-, hu⟩
      · exact absurd hr' hr
      · obtain ⟨-, rfl⟩ := checked_ok hu
        rfl
  | lostExecution runner worker now error =>
    have hu := ok_of_map_some h
    show Option.elim (if t.state ≠ .assigned ∧ t.retryPolicy ≠ .noRetry ∧
      t.retryCount < t.maxRetries then some (now, now, none) else none) _ _
    rcases handleLostExecution_cases hu with ⟨ha, hu⟩ | ⟨ha, hr, rfl⟩ | ⟨ha, hr, hu⟩
    · rw [if_neg fun hn => hn.1 ha]
      obtain ⟨-, rfl⟩ := checked_ok hu
      rfl
    · rw [if_pos ⟨ha, hr⟩]
      exact ⟨rfl, rfl⟩
    · rw [if_neg fun hn => hr hn.2]
      obtain ⟨-, rfl⟩ := checked_ok hu
      rfl
  | autoRetry now =>
    obtain rfl := Option.some.inj (Except.ok.inj h)
    exact ⟨rfl, rfl⟩
  | user u =>
    cases u with
    | create v => cases h
    | unlink => cases h
    | lookupUniqueKey key => obtain rfl := Option.some.inj (Except.ok.inj h); rfl
    | storePhaseData vals => obtain rfl := Option.some.inj (Except.ok.inj h); rfl
    | enterPhase phase childIds => obtain rfl := Option.some.inj (Except.ok.inj h); rfl
    | write v => obtain rfl := Option.some.inj (Except.ok.inj h); rfl
    | actionCancel now =>
      obtain ⟨-, rfl⟩ := checked_some h
      rfl
    | actionRetry eta =>
      have hu := ok_of_map_some h
      obtain ⟨-, rfl⟩ := actionRetry_ok hu
      rfl
  | assign worker uuid =>
    have hu := ok_of_map_some h
    obtain ⟨-, rfl⟩ := claimRow_eq hu
    rfl
  | progress value => obtain rfl := Option.some.inj (Except.ok.inj h); rfl
  | unown => obtain rfl := Option.some.inj (Except.ok.inj h); rfl
  | lockWaiting => obtain rfl := Option.some.inj (Except.ok.inj h); rfl
  | move now m =>
    cases m <;>
    · obtain ⟨-, rfl⟩ := checked_some h
      rfl
  | _ =>
    obtain ⟨-, rfl⟩ := checked_some h
    rfl

/-! ## The statements of a transaction -/

/-- The retries `l` are those from the `n + 1`-st on, and each has the delay that goes with what it
read. -/
def Logged (reg : Registry) (n : ℤ) (l : List Retry) : Prop :=
  ∀ (i : ℕ) (r : Retry), l[i]? = some r → r.before.retryCount = n + i ∧ r.Regular reg

theorem Logged.nil {n : ℤ} : Logged reg n [] := fun i r h => by simp at h

theorem Logged.append {n : ℤ} {l l' : List Retry} (h : Logged reg n l)
    (h' : Logged reg (n + l.length) l') : Logged reg n (l ++ l') := by
  intro i r hr
  by_cases hi : i < l.length
  · rw [List.getElem?_append_left hi] at hr
    exact h i r hr
  · rw [List.getElem?_append_right (by omega)] at hr
    obtain ⟨hc, hreg⟩ := h' _ r hr
    exact ⟨by rw [hc]; omega, hreg⟩

theorem exec_logged {a : RowAct} {b : Bool} {t : Task} {p : Bool × Option Task}
    (hcmp : Compared a t) (h : a.exec reg (b, some t) = .ok p) :
    Logged reg t.retryCount (a.retry (some t) p.2).toList ∧
      ∀ t', p.2 = some t' →
        t'.retryCount = t.retryCount + (a.retry (some t) p.2).toList.length := by
  rcases RowAct.exec_run h with ⟨hs, hr, -⟩ | ⟨hs, rfl⟩
  · rcases hp : p.2 with _ | t'
    · have hretry : a.retry (some t) none = none := rfl
      rw [hretry]
      exact ⟨.nil, fun u hu => by cases hu⟩
    · rw [hp] at hr
      have hc := RowAct.retry_counts hcmp hs hr
      have hretry : a.retry (some t) (some t') =
          (a.requeues t).map fun q => ⟨t, t', q.1, q.2.1, q.2.2⟩ := if_pos hs
      rw [hretry]
      rcases hq : a.requeues t with _ | q
      · rw [hq] at hc
        refine ⟨.nil, fun u hu => ?_⟩
        obtain rfl := Option.some.inj hu
        simpa using hc
      · rw [hq] at hc
        obtain ⟨hc, hreg⟩ := hc
        refine ⟨fun i r hi => ?_, fun u hu => ?_⟩
        · cases i with
          | zero =>
            obtain rfl := Option.some.inj hi
            exact ⟨by simp, hreg⟩
          | succ i => simp at hi
        · obtain rfl := Option.some.inj hu
          simpa using hc
  · have hretry : a.retry (some t) (some t) = none := if_neg (Bool.eq_false_iff.1 hs)
    show Logged reg _ (a.retry (some t) (some t)).toList ∧ _
    rw [hretry]
    refine ⟨.nil, fun u hu => ?_⟩
    obtain rfl := Option.some.inj hu
    simp

theorem retriesOf_cons {a : RowAct} {acts : List RowAct} {p p' : Bool × Option Task}
    (h : a.exec reg p = .ok p') :
    retriesOf reg (a :: acts) p = (a.retry p.2 p'.2).toList ++ retriesOf reg acts p' := by
  rw [retriesOf, h]

theorem retriesOf_none {acts : List RowAct} {b : Bool} {q : Bool × Option Task}
    (hc : ∀ a ∈ acts, a.creates = false) (h : runActs reg acts (b, none) = .ok q) :
    retriesOf reg acts (b, none) = [] ∧ q.2 = none := by
  induction acts generalizing b with
  | nil =>
    obtain rfl := Except.ok.inj h
    exact ⟨rfl, rfl⟩
  | cons a acts ih =>
    obtain ⟨p, hp, hrest⟩ := runActs_cons h
    rw [retriesOf_cons hp]
    rcases RowAct.exec_run hp with ⟨-, hr, -⟩ | ⟨-, rfl⟩
    · exact (RowAct.run_none (hc a List.mem_cons_self) hr).elim
    · obtain ⟨h1, h2⟩ := ih (fun a hm => hc a (List.mem_cons_of_mem _ hm)) hrest
      exact ⟨by rw [h1]; rfl, h2⟩

/-- The statements count what they retry, and leave the rest of the count alone. -/
theorem retriesOf_logged {acts : List RowAct} {b : Bool} {t : Task} {q : Bool × Option Task}
    (hc : ∀ a ∈ acts, a.creates = false) (hhead : ∀ a, acts.head? = some a → Compared a t)
    (htail : ∀ a ∈ acts.tail, ∀ u, Compared a u) (h : runActs reg acts (b, some t) = .ok q) :
    Logged reg t.retryCount (retriesOf reg acts (b, some t)) ∧ ∀ t', q.2 = some t' →
      t'.retryCount = t.retryCount + (retriesOf reg acts (b, some t)).length := by
  induction acts generalizing b t with
  | nil =>
    obtain rfl := Except.ok.inj h
    refine ⟨.nil, fun u hu => ?_⟩
    obtain rfl := Option.some.inj hu
    simp [retriesOf]
  | cons a acts ih =>
    obtain ⟨⟨b₁, o⟩, hp, hrest⟩ := runActs_cons h
    obtain ⟨h1, h2⟩ := exec_logged (hhead a rfl) hp
    have hc' : ∀ a ∈ acts, a.creates = false := fun a hm => hc a (List.mem_cons_of_mem _ hm)
    rw [retriesOf_cons hp]
    rcases o with _ | t₁
    · obtain ⟨h3, h4⟩ := retriesOf_none hc' hrest
      rw [h3, List.append_nil]
      exact ⟨h1, fun u hu => by rw [h4] at hu; cases hu⟩
    · have hc₁ := h2 t₁ rfl
      obtain ⟨h3, h4⟩ := ih hc' (fun a ha => htail a (List.mem_of_mem_head? ha) t₁)
        (fun a hm => htail a (List.mem_of_mem_tail hm)) hrest
      rw [hc₁] at h3 h4
      refine ⟨h1.append h3, fun u hu => ?_⟩
      rw [h4 u hu, List.length_append]
      push_cast
      omega

/-- The retries of a transaction: a failure handler that retries does so to the row it has read. -/
theorem commit_logged {x : Txn Tx TaskId Task} {t : Task} {q : Bool × Option Task}
    (hrow : x.snap.row k = some t) (hc : ∀ a ∈ x.act.acts reg x.snap x.locked k, a.creates = false)
    (h : runActs reg (x.act.acts reg x.snap x.locked k) (false, some t) = .ok q) :
    Logged reg t.retryCount (retriesOf reg (x.act.acts reg x.snap x.locked k) (false, some t)) ∧
      ∀ t', q.2 = some t' → t'.retryCount = t.retryCount +
        (retriesOf reg (x.act.acts reg x.snap x.locked k) (false, some t)).length := by
  by_cases hall : ∃ r now exc tb read, .failure r now exc tb read ∈
      x.act.acts reg x.snap x.locked k ∧ retriesFailure exc t = true
  · obtain ⟨r, now, exc, tb, read, hm, hr⟩ := hall
    obtain ⟨rfl, hone⟩ := failure_acts hrow hm
    rw [hone hr] at h ⊢
    refine retriesOf_logged (fun a ha => by rw [List.mem_singleton.1 ha]; rfl) ?_
      (fun a ha => absurd ha List.not_mem_nil) h
    intro a ha
    obtain rfl := Option.some.inj ha
    rintro r' now' exc' tb' read' heq -
    obtain ⟨-, -, -, -, rfl⟩ := RowAct.failure.inj heq
    rfl
  · have hcmp : ∀ a ∈ x.act.acts reg x.snap x.locked k, ∀ u, Compared a u := by
      rintro a hm u r now exc tb read rfl hretry
      obtain ⟨rfl, -⟩ := failure_acts hrow hm
      exact absurd ⟨r, now, exc, tb, _, hm, hretry⟩ hall
    exact retriesOf_logged hc (fun a ha => hcmp a (List.mem_of_mem_head? ha) t)
      (fun a hm => hcmp a (List.mem_of_mem_tail hm)) h

/-! ## Runs -/

/-- What a run knows of the retries `l` of task `k` so far. -/
structure RetryInv (reg : Registry) (k : TaskId) (l : List Retry) (s : Sys) : Prop where
  inv : Inv reg s
  drawn : Drawn s
  known : Known k s
  count : ∀ t, s.db.cur.row k = some t → t.retryCount = l.length
  logged : Logged reg 0 l

theorem autoRetries_commit {i : ℕ} {x : Txn Tx TaskId Task} (hx : s.db.txns i = some x)
    (hk : k ∈ x.locked) : s.autoRetries reg k (.db (.commit i)) =
      retriesOf reg (x.act.acts reg x.snap x.locked k) (false, s.db.cur.row k) := by
  simp [Sys.autoRetries, hx, hk]

theorem autoRetries_quiet (hq : ∀ i x, ev = .db (.commit i) → s.db.txns i = some x →
    k ∉ x.locked) : s.autoRetries reg k ev = [] := by
  unfold Sys.autoRetries
  split
  · next i =>
    rcases hx : s.db.txns i with _ | x
    · rfl
    · exact if_neg (hq i x rfl hx)
  · rfl

theorem RetryInv.step {l : List Retry} (hr : RetryInv reg k l s) (h : s.step reg ev = some s') :
    RetryInv reg k (l ++ s.autoRetries reg k ev) s' := by
  have hi := hr.inv
  by_cases hq : ∃ i x, ev = .db (.commit i) ∧ s.db.txns i = some x ∧ k ∈ x.locked
  · obtain ⟨i, x, rfl, hx, hk⟩ := hq
    obtain ⟨b, hrun⟩ := commit_row hi.wf (Sys.step_of_db h).2 hx hk
    have hok := hi.wf.txn i x hx
    have hc : ∀ a ∈ x.act.acts reg x.snap x.locked k, a.creates = false :=
      acts_no_create fun hcr => by
        have := hr.known.stale i x hx hcr
        rw [hok.unchanged k hk] at this
        exact absurd this (Nat.lt_irrefl _)
    rw [autoRetries_commit hx hk]
    rcases hrow : s.db.cur.row k with _ | t
    · rw [hrow] at hrun
      obtain ⟨h1, h2⟩ := retriesOf_none hc hrun
      rw [h1, List.append_nil]
      refine ⟨hi.step h, hr.drawn.step hi h, hr.known.step h, fun t' ht' => ?_, hr.logged⟩
      rw [show s'.db.cur.row k = none from h2] at ht'
      cases ht'
    · rw [hrow] at hrun
      obtain ⟨h1, h2⟩ := commit_logged ((hok.locked_row hk).trans hrow) hc hrun
      have hcount := hr.count t hrow
      rw [hcount] at h1 h2
      refine ⟨hi.step h, hr.drawn.step hi h, hr.known.step h, fun t' ht' => ?_, ?_⟩
      · rw [h2 t' ht', List.length_append]
        push_cast
        rfl
      · exact hr.logged.append (by simpa using h1)
  · have hrow : s'.db.cur.row k = s.db.cur.row k := by
      rcases Sys.step_db h with ⟨e, rfl, -, hs⟩ | ⟨-, hdb⟩
      · rcases hs.row_change hi.wf k with hsame | ⟨i, x, o, rfl, hx, hk, -⟩
        · exact hsame
        · exact absurd ⟨i, x, rfl, hx, hk⟩ hq
      · rw [hdb]
    rw [autoRetries_quiet fun i x he hx hk => hq ⟨i, x, he, hx, hk⟩, List.append_nil]
    exact ⟨hi.step h, hr.drawn.step hi h, hr.known.step h, fun t ht => hr.count t (hrow ▸ ht),
      hr.logged⟩

/-- **Numbering.** The `n`-th automatic retry of a task since it was created has found the count at
`n - 1`, and has looked up the delay for that count. -/
theorem retryLog_logged {s₀ : Sys} {es₀ es : List Ev} {v : TaskVals} (h0 : Start s₀)
    (hp₀ : Path (Sys.step reg) anyStep s₀ es₀ s) (hk : s.db.cur.row k = some v.create)
    (hp : Path (Sys.step reg) anyStep s es s') : Logged reg 0 (retryLog reg k s es) := by
  have hi := h0.inv.path hp₀
  have hd := Drawn.path h0 hp₀
  have h0 : RetryInv reg k [] s :=
    ⟨hi, hd, .of_row hi hd hk, fun t ht => by
      obtain rfl := Option.some.inj (hk.symm.trans ht)
      rfl, .nil⟩
  have := hp.inv_emitted (f := Sys.autoRetries reg k) (fun l s e s' hr _ h => hr.step h) h0
  exact this.logged

/-- **Schedule.** The `n + 1`-st automatic retry of a task, without a delay given, comes after the
delay that its type declares for it exactly if the delay declared for the retry before it, counted
from the time of the retry, is the same. -/
theorem retry_on_schedule_iff {s₀ : Sys} {es₀ es : List Ev} {v : TaskVals} (h0 : Start s₀)
    (hp₀ : Path (Sys.step reg) anyStep s₀ es₀ s) (hk : s.db.cur.row k = some v.create)
    (hp : Path (Sys.step reg) anyStep s es s') {n : ℕ} {r : Retry} {cls : TaskType}
    (hr : (retryLog reg k s es)[n]? = some r) (hg : r.given = none)
    (hcls : reg.lookup r.before.typeCode = some cls) :
    r.after.eta = cls.retryDelays.due (n + 1) r.failedAt ↔
      cls.retryDelays.OnTime n r.failedAt r.now := by
  obtain ⟨hcount, hreg⟩ := retryLog_logged h0 hp₀ hk hp n r hr
  unfold Retry.Regular at hreg
  rw [hg, hcount, Int.zero_add] at hreg
  rw [hreg, retryEta_eq hcls, due_eq_iff]

/-- The task fails, and its failure handler retries it. -/
def retriedAfterFailure : List Ev := failedOnce ++ [.db (.commit 3)]

/-- Ten seconds before the first retry. -/
def tenSeconds : Registry := [("export", { retryDelays := .table [(1, 10)] })]

/-- Ten seconds before the first retry, and under the key that its lookup reads. -/
def evenDelays : Registry := [("export", { retryDelays := .table [(0, 10), (1, 10)] })]

theorem evenDelays_onTime : ∃ s' r, Path (Sys.step evenDelays) anyStep (Sys.init oneTask)
      retriedAfterFailure s' ∧
    (retryLog evenDelays 1 (Sys.init oneTask) retriedAfterFailure)[0]? = some r ∧
    (r.after.eta = (RetryDelays.table [(0, 10), (1, 10)]).due 1 r.failedAt ↔
      (RetryDelays.table [(0, 10), (1, 10)]).OnTime 0 r.failedAt r.now) ∧
    r.after.eta = some 113 := by
  have hp : Path (Sys.step evenDelays) anyStep (Sys.init oneTask) retriedAfterFailure _ :=
    path_reached (by decide +kernel)
  have hf : (retryLog evenDelays 1 (Sys.init oneTask) retriedAfterFailure)[0]?.map
      (fun r => (r.given, evenDelays.lookup r.before.typeCode, r.after.eta)) =
        some (none, some { retryDelays := .table [(0, 10), (1, 10)] }, some 113) := by
    decide +kernel
  obtain ⟨r, hr, hf⟩ := Option.map_eq_some_iff.1 hf
  obtain ⟨hg, hf⟩ := Prod.mk.inj hf
  obtain ⟨hcls, heta⟩ := Prod.mk.inj hf
  exact ⟨_, r, hp, hr, retry_on_schedule_iff (v := exportVals) (Start.init (by decide))
    (.nil _) rfl hp hr hg hcls, heta⟩

/-- The first retry comes at once. -/
theorem tenSeconds_at_once : ∃ s' r, Path (Sys.step tenSeconds) anyStep (Sys.init oneTask)
      retriedAfterFailure s' ∧
    (retryLog tenSeconds 1 (Sys.init oneTask) retriedAfterFailure)[0]? = some r ∧
    r.given = none ∧ r.after.eta = none ∧
    (RetryDelays.table [(1, 10)]).due 1 r.failedAt = some 113 := by
  have hp : Path (Sys.step tenSeconds) anyStep (Sys.init oneTask) retriedAfterFailure _ :=
    path_reached (by decide +kernel)
  have hf : (retryLog tenSeconds 1 (Sys.init oneTask) retriedAfterFailure)[0]?.map
      (fun r => (r.given, r.after.eta, r.failedAt)) = some (none, none, 103) := by decide +kernel
  obtain ⟨r, hr, hf⟩ := Option.map_eq_some_iff.1 hf
  obtain ⟨hg, hf⟩ := Prod.mk.inj hf
  obtain ⟨heta, hat⟩ := Prod.mk.inj hf
  exact ⟨_, r, hp, hr, hg, heta, by rw [hat]; decide⟩

end GenericTaskQueue
