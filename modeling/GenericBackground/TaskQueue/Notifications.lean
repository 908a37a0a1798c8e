import GenericBackground.TaskQueue.RowHistory
import Mathlib.Data.List.Chain

/-!
# Bus notifications

The actions of a task tell its creator what they do: `_notify_state_change` sends the new state and
the progress, `_notify_completion` a toast if the type opts in, and `update_progress` the progress.
The messages of a transaction are delivered with its commit, those of an aborted one never. A claim
(`action_assign`) sends nothing, and neither do `create`, `write` and the cleanup that takes a
waiting task from its worker.

1. One statement: the client that shows the task as it was shows it as it is (`sends_display`), and
   it is shown a transition (`sends_transition`).
2. A row: both go through the statements of its history (`outputs_task`).
3. A run: what a partner's channel has delivered makes the client show every task as it is
   committed, an assigned one as pending (`client_shows`); and it has shown a path of the visible
   state machine, with at most one success toast (`client_path`).
-/

namespace GenericTaskQueue

open RowStore Lts

/-! ## Messages -/

abbrev PartnerId := ℕ

inductive BusMessage where
  | taskUpdate (taskId : TaskId) (state : TaskState) (progress : ℤ)
  | taskProgress (taskId : TaskId) (progress : ℤ)
  | simpleNotification (title message type : String) (sticky : Bool)
  deriving DecidableEq, Repr

/-- What the notifications read besides the task: the partner of its creator, and whether its type
opts in to toasts. -/
structure Bus where
  partnerId : UserId → Option PartnerId
  notifyOnCompletion : TypeCode → Bool

/-- `_bus_send` to the task creator; skipped without a partner. -/
def Bus.send (B : Bus) (t : Task) (m : BusMessage) : List (PartnerId × BusMessage) :=
  ((B.partnerId t.createUid).map fun partner => (partner, m)).toList

def Bus.notifyStateChange (B : Bus) (t : Task) : List (PartnerId × BusMessage) :=
  B.send t (.taskUpdate t.id t.state t.progress)

def Bus.notifyCompletion (B : Bus) (t : Task) : List (PartnerId × BusMessage) :=
  if B.notifyOnCompletion t.typeCode then
    B.send t (.simpleNotification
      (if t.state = .done then "Task completed" else "Task failed") t.name
      (if t.state = .done then "success" else "danger") (t.state = .failed))
  else []

/-- The notification of `update_progress`, and of its propagation to the parent. -/
def Bus.notifyProgress (B : Bus) (t : Task) : List (PartnerId × BusMessage) :=
  B.send t (.taskProgress t.id t.progress)

/-- What a statement sends that makes `t'` of the task `t`. -/
def RowAct.sends (B : Bus) (a : RowAct) (t t' : Task) : List (PartnerId × BusMessage) :=
  match a with
  | .user (.actionCancel _) => B.notifyStateChange t'
  | .user (.actionRetry _) => B.notifyStateChange t'
  | .user _ => []
  | .assign _ _ => []
  | .start _ => B.notifyStateChange t'
  | .stuck => B.notifyStateChange t'
  | .waitChildren => B.notifyStateChange t'
  | .progress _ => B.notifyProgress t'
  | .done _ _ _ => B.notifyStateChange t' ++ B.notifyCompletion t'
  | .failure _ _ exc _ read => B.notifyStateChange t' ++
      if retriesFailure exc (read.getD t) then [] else B.notifyCompletion t'
  | .lostExecution _ _ _ _ => B.notifyStateChange t' ++
      if t.state = .assigned ∨ (t.retryPolicy ≠ .noRetry ∧ t.retryCount < t.maxRetries) then []
      else B.notifyCompletion t'
  | .autoRetry _ => B.notifyStateChange t'
  | .unown => []
  | .lockWaiting => []
  | .move _ .cancel => B.notifyStateChange t'
  | .move _ _ => B.notifyStateChange t' ++ B.notifyCompletion t'

/-- What a statement sends for the row it finds and the row it leaves. -/
def RowAct.messages (B : Bus) (a : RowAct) : Option Task → Option Task →
    List (PartnerId × BusMessage)
  | some t, some t' => a.sends B t t'
  | _, _ => []

/-- What a step delivers for row `k`: the messages of the transaction that commits. -/
def Sys.deliversFor (reg : Registry) (B : Bus) (s : Sys) (ev : Ev) (k : TaskId) :
    List (PartnerId × BusMessage) :=
  outputs reg (RowAct.messages B) (s.rowActs reg k ev) (s.db.cur.row k)

/-- What a step delivers, row by row. -/
def Sys.delivers (reg : Registry) (B : Bus) (s : Sys) (ev : Ev) : List (PartnerId × BusMessage) :=
  match ev with
  | .db (.commit i) => (s.db.txns i).elim [] fun x => x.locked.flatMap (s.deliversFor reg B ev)
  | _ => []

/-- What a run delivers on the channel of a partner. -/
def channel (reg : Registry) (B : Bus) (partner : PartnerId) (s : Sys) (es : List Ev) :
    List BusMessage :=
  ((emitted (Sys.step reg) (Sys.delivers reg B) s es).filter fun e => e.1 = partner).map Prod.snd

/-! ## The client -/

structure Display where
  state : TaskState
  progress : ℤ
  deriving DecidableEq, Repr

def TaskState.visible : TaskState → TaskState
  | .assigned => .pending
  | st => st

def Task.display (t : Task) : Display := ⟨t.state.visible, t.progress⟩

/-- What a client shows of a task that it has heard nothing of. -/
def Display.initial : Display := ⟨.pending, 0⟩

/-- What a message changes in what a client shows of task `k`. -/
def Display.hear (k : TaskId) (d : Display) : BusMessage → Display
  | .taskUpdate id state progress => if id = k then ⟨state, progress⟩ else d
  | .taskProgress id progress => if id = k then { d with progress := progress } else d
  | .simpleNotification _ _ _ _ => d

/-- What a client shows of task `k` after the messages of a channel. -/
def Display.after (k : TaskId) (d : Display) (ms : List BusMessage) : Display :=
  ms.foldl (Display.hear k) d

variable {reg : Registry} {B : Bus} {s s' : Sys} {ev : Ev} {k : TaskId} {partner : PartnerId}

/-! ## One statement -/

/-- The states that a client may be shown after a state: the transitions of a task, with its claim
left out. -/
def TaskState.nextVisible : TaskState → List TaskState
  | .pending => [.pending, .running, .cancelled]
  | .running => [.pending, .done, .failed, .waiting, .stuck, .cancelled]
  | .stuck => [.pending, .done, .failed, .cancelled]
  | .waiting => [.done, .failed, .cancelled]
  | .failed => [.pending, .cancelled]
  | _ => []

/-- What is sent when `t` becomes `t'`: nothing if a client sees no change, the progress, or a
transition, with a toast exactly if the task is done or has failed. -/
inductive Notified (B : Bus) (t t' : Task) : List (PartnerId × BusMessage) → Prop
  | silent (h : t'.display = t.display) : Notified B t t' []
  | progress (h : t'.state = t.state) : Notified B t t' (B.notifyProgress t')
  | moved (h : t'.state ∈ t.state.visible.nextVisible)
      (hs : t'.state ≠ .done ∧ t'.state ≠ .failed) : Notified B t t' (B.notifyStateChange t')
  | completed (h : t'.state ∈ t.state.visible.nextVisible)
      (hs : t'.state = .done ∨ t'.state = .failed) :
      Notified B t t' (B.notifyStateChange t' ++ B.notifyCompletion t')

theorem visible_of_allowed {st st' : TaskState} (h : st' ∈ allowedTransitions st)
    (ha : st' ≠ .assigned) : st' ∈ st.visible.nextVisible := by
  revert h ha
  cases st <;> cases st' <;> decide

theorem pending_visible {st : TaskState} (h : st ∈ [TaskState.failed, .running, .stuck]) :
    .pending ∈ st.visible.nextVisible := by
  revert h; cases st <;> decide

/-- A statement keeps what says whom to notify. -/
structure SameCreator (t t' : Task) : Prop where
  id : t'.id = t.id
  createUid : t'.createUid = t.createUid
  typeCode : t'.typeCode = t.typeCode

theorem handleFailure_notified {now : ℕ} {exc : Exc} {tb : String} {read t t' : Task}
    (hs : t.state ∈ finalStates) (h : handleFailure reg now exc tb read t = .ok t') :
    SameCreator t t' ∧ Notified B t t' (B.notifyStateChange t' ++
      if retriesFailure exc read then [] else B.notifyCompletion t') := by
  rcases handleFailure_cases h with ⟨hr, _, rfl⟩ | ⟨hr, h⟩
  · rw [if_pos hr, List.append_nil]
    refine ⟨⟨rfl, rfl, rfl⟩, .moved (pending_visible ?_) ⟨nofun, nofun⟩⟩
    exact List.mem_cons_of_mem _ hs
  · obtain ⟨hs, rfl⟩ := checked_ok h
    rw [if_neg (Bool.eq_false_iff.1 hr)]
    exact ⟨⟨rfl, rfl, rfl⟩, .completed (visible_of_allowed hs nofun) (.inr rfl)⟩

theorem pending_open : TaskState.pending ≠ .done ∧ TaskState.pending ≠ .failed := by decide

theorem handleLostExecution_notified {now : ℕ} {error : String} {t t' : Task}
    (hs : t.state ∈ inFlightStates) (h : handleLostExecution reg now error t = .ok t') :
    SameCreator t t' ∧ Notified B t t' (B.notifyStateChange t' ++
      if t.state = .assigned ∨ (t.retryPolicy ≠ .noRetry ∧ t.retryCount < t.maxRetries) then []
      else B.notifyCompletion t') := by
  rcases handleLostExecution_cases h with ⟨ha, h⟩ | ⟨ha, hr, rfl⟩ | ⟨ha, hr, h⟩
  · obtain ⟨hs, rfl⟩ := checked_ok h
    rw [if_pos (.inl ha), List.append_nil]
    have hne : TaskState.pending ≠ .assigned := by decide
    exact ⟨⟨rfl, rfl, rfl⟩, .moved (visible_of_allowed hs hne) pending_open⟩
  · rw [if_pos (.inr hr), List.append_nil]
    refine ⟨⟨rfl, rfl, rfl⟩, .moved (pending_visible ?_) pending_open⟩
    exact List.mem_cons_of_mem _ (by simpa [inFlightStates, ha] using hs)
  · obtain ⟨hs, rfl⟩ := checked_ok h
    rw [if_neg (not_or.2 ⟨ha, hr⟩)]
    have hne : TaskState.failed ≠ .assigned := by decide
    exact ⟨⟨rfl, rfl, rfl⟩, .completed (visible_of_allowed hs hne) (.inr rfl)⟩

theorem RowAct.notified {a : RowAct} {t t' : Task} (hs : a.selects (some t) = true)
    (h : a.run reg (some t) = .ok (some t')) :
    SameCreator t t' ∧ Notified B t t' (a.sends B t t') := by
  have edited : ∀ {u : Task}, (.ok (some u) : Except TaskError (Option Task)) = .ok (some t') →
      u.display = t.display → SameCreator t u →
      SameCreator t t' ∧ Notified B t t' [] := fun he hd hu => by
    obtain rfl := Option.some.inj (Except.ok.inj he)
    exact ⟨hu, .silent hd⟩
  change a.onTask reg t = .ok (some t') at h
  cases a with
  | user u =>
    cases u with
    | create v => cases h
    | lookupUniqueKey key => exact edited h rfl ⟨rfl, rfl, rfl⟩
    | write v => exact edited h rfl ⟨rfl, rfl, rfl⟩
    | storePhaseData vals => exact edited h rfl ⟨rfl, rfl, rfl⟩
    | enterPhase phase childIds => exact edited h rfl ⟨rfl, rfl, rfl⟩
    | actionCancel now =>
      obtain ⟨hs, rfl⟩ := checked_some h
      exact ⟨⟨rfl, rfl, rfl⟩, .moved (visible_of_allowed hs nofun) ⟨nofun, nofun⟩⟩
    | actionRetry eta =>
      obtain ⟨hf, rfl⟩ := actionRetry_ok (ok_of_map_some h)
      exact ⟨⟨rfl, rfl, rfl⟩, .moved (pending_visible (by simp [hf])) ⟨nofun, nofun⟩⟩
    | unlink => cases h
  | assign worker uuid =>
    obtain ⟨hp, rfl⟩ := claimRow_eq (ok_of_map_some h)
    refine ⟨⟨rfl, rfl, rfl⟩, .silent ?_⟩
    show (⟨.pending, t.progress⟩ : Display) = ⟨t.state.visible, t.progress⟩
    rw [hp]
    rfl
  | progress value =>
    obtain rfl := Option.some.inj (Except.ok.inj h)
    exact ⟨⟨rfl, rfl, rfl⟩, .progress rfl⟩
  | failure runner now exc traceback read =>
    exact handleFailure_notified (finalizable_iff.1 hs).1 (ok_of_map_some h)
  | lostExecution runner worker now error =>
    exact handleLostExecution_notified (finalizable_iff.1 hs).1 (ok_of_map_some h)
  | autoRetry now =>
    obtain rfl := Option.some.inj (Except.ok.inj h)
    exact ⟨⟨rfl, rfl, rfl⟩,
      .moved (pending_visible (by simp [autoRetryable_failed hs])) ⟨nofun, nofun⟩⟩
  | unown => exact edited h rfl ⟨rfl, rfl, rfl⟩
  | lockWaiting => exact edited h rfl ⟨rfl, rfl, rfl⟩
  | done runner now result =>
    obtain ⟨hs, rfl⟩ := checked_some h
    exact ⟨⟨rfl, rfl, rfl⟩, .completed (visible_of_allowed hs nofun) (.inl rfl)⟩
  | move now m =>
    cases m with
    | done result =>
      obtain ⟨hs, rfl⟩ := checked_some h
      exact ⟨⟨rfl, rfl, rfl⟩, .completed (visible_of_allowed hs nofun) (.inl rfl)⟩
    | fail error =>
      obtain ⟨hs, rfl⟩ := checked_some h
      exact ⟨⟨rfl, rfl, rfl⟩, .completed (visible_of_allowed hs nofun) (.inr rfl)⟩
    | cancel =>
      obtain ⟨hs, rfl⟩ := checked_some h
      exact ⟨⟨rfl, rfl, rfl⟩, .moved (visible_of_allowed hs nofun) ⟨nofun, nofun⟩⟩
  | start now =>
    obtain ⟨hs, rfl⟩ := checked_some h
    exact ⟨⟨rfl, rfl, rfl⟩, .moved (visible_of_allowed hs nofun) ⟨nofun, nofun⟩⟩
  | stuck =>
    obtain ⟨hs, rfl⟩ := checked_some h
    exact ⟨⟨rfl, rfl, rfl⟩, .moved (visible_of_allowed hs nofun) ⟨nofun, nofun⟩⟩
  | waitChildren =>
    obtain ⟨hs, rfl⟩ := checked_some h
    exact ⟨⟨rfl, rfl, rfl⟩, .moved (visible_of_allowed hs nofun) ⟨nofun, nofun⟩⟩

/-! ## One row -/

def onChannel (partner : PartnerId) (l : List (PartnerId × BusMessage)) : List BusMessage :=
  (l.filter fun e => e.1 = partner).map Prod.snd

theorem onChannel_append (l l' : List (PartnerId × BusMessage)) :
    onChannel partner (l ++ l') = onChannel partner l ++ onChannel partner l' := by
  unfold onChannel
  rw [List.filter_append, List.map_append]

theorem after_append (d : Display) (ms ms' : List BusMessage) :
    d.after k (ms ++ ms') = (d.after k ms).after k ms' := List.foldl_append

theorem onChannel_send {t : Task} (h : B.partnerId t.createUid = some partner) (m : BusMessage) :
    onChannel partner (B.send t m) = [m] := by
  unfold onChannel Bus.send
  simp [h]

theorem after_completion (d : Display) (t : Task) :
    d.after k (onChannel partner (B.notifyCompletion t)) = d := by
  unfold Bus.notifyCompletion Bus.send onChannel
  split_ifs <;> cases B.partnerId t.createUid with
  | none => rfl
  | some p => by_cases hp : p = partner <;> simp [hp, Display.after, Display.hear]

/-- A client that shows the task before a statement shows it after the messages. -/
theorem Notified.after_display {t t' : Task} {l : List (PartnerId × BusMessage)}
    (h : Notified B t t' l) (hp : B.partnerId t'.createUid = some partner) :
    t.display.after t'.id (onChannel partner l) = t'.display := by
  have state : ∀ (d : Display), t'.state ∈ t.state.visible.nextVisible →
      d.after t'.id (onChannel partner (B.notifyStateChange t')) = t'.display := fun d hs => by
    rw [Bus.notifyStateChange, onChannel_send hp]
    show (if t'.id = t'.id then _ else d) = (⟨t'.state.visible, t'.progress⟩ : Display)
    rw [if_pos rfl]
    -- an assigned task is shown as pending, and never notified
    revert hs
    cases t.state <;> cases t'.state <;> first | exact fun _ => rfl | exact nofun
  cases h with
  | silent h => exact h.symm
  | progress h =>
    rw [Bus.notifyProgress, onChannel_send hp]
    show (if t'.id = t'.id then _ else t.display) = (⟨t'.state.visible, t'.progress⟩ : Display)
    rw [if_pos rfl, h]
    rfl
  | moved h hs => exact state _ h
  | completed h hs => rw [onChannel_append, after_append, after_completion, state _ h]

/-- Everything that a run delivers about row `k`. -/
def deliveredFor (reg : Registry) (B : Bus) (k : TaskId) (s : Sys) (es : List Ev) :
    List (PartnerId × BusMessage) :=
  outputs reg (RowAct.messages B) (history reg k s es) (s.db.cur.row k)

/-- A client that shows row `k` as it was at the start of a run shows it at the end. -/
theorem delivered_display {s₀ : Sys} {es : List Ev} {t : Task} (h0 : Start s₀)
    (hp : Path (Sys.step reg) DrawsOnce s₀ es s) (ht : s.db.cur.row k = some t)
    (hB : B.partnerId t.createUid = some partner) :
    ((s₀.db.cur.row k).elim .initial Task.display).after k
      (onChannel partner (deliveredFor reg B k s₀ es)) = t.display := by
  obtain ⟨b, hrun⟩ := row_history h0.inv hp k
  obtain rfl := (h0.inv.path hp).ids k t ht
  refine outputs_task (f := RowAct.messages B) (P := fun l u =>
    B.partnerId u.createUid = some partner →
      ((s₀.db.cur.row t.id).elim .initial Task.display).after u.id (onChannel partner l) =
        u.display) ?_ ?_ (created_once h0 hp t.id) hrun ?_ t ht hB
  · intro hnone v _
    rw [show s₀.db.cur.row t.id = none from hnone]
    rfl
  · intro l a u u' hl hs hr hu
    obtain ⟨hsame, hn⟩ := RowAct.notified (B := B) hs hr
    rw [onChannel_append, after_append, hsame.id, hl (hsame.createUid ▸ hu), ← hsame.id]
    exact hn.after_display hu
  · intro u hu _
    rw [show s₀.db.cur.row t.id = some u from hu]
    rfl

/-! ## The channel of a partner -/

/-- A message that is about no other task than `k`. -/
def BusMessage.About (k : TaskId) : BusMessage → Prop
  | .taskUpdate id _ _ => id = k
  | .taskProgress id _ => id = k
  | .simpleNotification _ _ _ _ => True

theorem after_other {k' : TaskId} (hk : k' ≠ k) {ms : List BusMessage}
    (h : ∀ m ∈ ms, m.About k') (d : Display) : d.after k ms = d := by
  induction ms generalizing d with
  | nil => rfl
  | cons m ms ih =>
    show (d.hear k m).after k ms = d
    rw [ih (fun m' hm => h m' (List.mem_cons_of_mem _ hm))]
    have hm := h m List.mem_cons_self
    cases m with
    | taskUpdate id st p => exact if_neg (fun he => hk (hm.symm.trans he))
    | taskProgress id p => exact if_neg (fun he => hk (hm.symm.trans he))
    | simpleNotification => rfl

theorem notified_about {t t' : Task} {l : List (PartnerId × BusMessage)} (h : Notified B t t' l) :
    ∀ e ∈ l, e.2.About t'.id := by
  have send : ∀ m : BusMessage, m.About t'.id → ∀ e ∈ B.send t' m, e.2.About t'.id := by
    intro m hm e he
    unfold Bus.send at he
    obtain ⟨p, -, rfl⟩ := Option.map_eq_some_iff.1 (Option.mem_toList.1 he)
    exact hm
  have update : ∀ e ∈ B.notifyStateChange t', e.2.About t'.id :=
    send (.taskUpdate t'.id t'.state t'.progress) rfl
  have toast : ∀ e ∈ B.notifyCompletion t', e.2.About t'.id := by
    intro e he
    unfold Bus.notifyCompletion at he
    split at he
    · exact send (.simpleNotification _ _ _ _) trivial e he
    · exact absurd he List.not_mem_nil
  cases h with
  | silent => exact fun e he => absurd he List.not_mem_nil
  | progress => exact send (.taskProgress t'.id t'.progress) rfl
  | moved => exact update
  | completed => exact fun e he => (List.mem_append.1 he).elim (update e) (toast e)

theorem Tx.Issues.run_idAt {a : Tx} {σ : Snapshot TaskId Task} {act : RowAct} {o o' : Option Task}
    (ha : a.Issues σ k act) (hid : IdAt k o) (h : act.run reg o = .ok o') : IdAt k o' := by
  by_cases hc : ∃ c rank uuid, a = .claimTask c rank uuid
  · obtain ⟨c, rank, uuid, rfl⟩ := hc
    cases ha with
    | user _ u => exact (RowAct.run_kept (plain_user u) h).id hid
    | assign =>
      rcases o with _ | t
      · cases h
      · obtain ⟨t', ht', rfl⟩ := map_some_ok h
        obtain ⟨-, rfl⟩ := claimRow_eq ht'
        intro u hu
        obtain rfl := Option.some.inj hu
        exact hid t rfl
  · exact (RowAct.run_kept (ha.plain fun c rank uuid he => hc ⟨c, rank, uuid, he⟩) h).id hid

theorem deliversFor_about (hi : Inv reg s) (h : s.step reg ev = some s') (k : TaskId) :
    ∀ e ∈ s.deliversFor reg B ev k, e.2.About k := by
  obtain ⟨b, hrun⟩ := rowActs_run hi h k
  have hiss : ∀ a ∈ s.rowActs reg k ev, ∃ x : Txn Tx TaskId Task, x.act.Issues x.snap k a := by
    intro a hm
    obtain ⟨i, x, -, -, -, hacts⟩ := mem_rowActs hm
    rw [hacts] at hm
    exact ⟨x, stmts_issues (mem_acts.1 hm)⟩
  refine (outputs_inv (f := RowAct.messages B) (I := fun l acts o => (∀ e ∈ l, e.2.About k) ∧
    IdAt k o ∧ ∀ a ∈ acts, ∃ x : Txn Tx TaskId Task, x.act.Issues x.snap k a) ?_ ?_ hrun (l := [])
    ⟨fun _ he => absurd he List.not_mem_nil, hi.ids k, hiss⟩).1
  · rintro l a acts o o' ⟨hl, hid, hact⟩ hs hr
    obtain ⟨x, hx⟩ := hact a List.mem_cons_self
    have hid' := hx.run_idAt hid hr
    refine ⟨fun e he => ?_, hid', fun b hb => hact b (List.mem_cons_of_mem _ hb)⟩
    rcases List.mem_append.1 he with he | he
    · exact hl e he
    · rcases o with _ | t
      · cases he
      · rcases o' with _ | t'
        · cases he
        · rw [← hid' t' rfl]
          exact notified_about (RowAct.notified hs hr).2 e he
  · rintro l a acts o ⟨hl, hid, hact⟩ -
    exact ⟨hl, hid, fun b hb => hact b (List.mem_cons_of_mem _ hb)⟩

/-- Of what a step delivers, a client's view of task `k` depends on the messages for its row
only. -/
theorem delivers_after (hi : Inv reg s) (h : s.step reg ev = some s') (k : TaskId) (d : Display) :
    d.after k (onChannel partner (s.delivers reg B ev)) =
      d.after k (onChannel partner (s.deliversFor reg B ev k)) := by
  have hnil : s.rowActs reg k ev = [] → s.deliversFor reg B ev k = [] := fun hr => by
    unfold Sys.deliversFor
    rw [hr]
    rfl
  by_cases hc : ∃ i, ev = .db (.commit i)
  · obtain ⟨i, rfl⟩ := hc
    obtain ⟨x, hx, -, -⟩ := Sys.step_commit h
    have hdel : s.delivers reg B (.db (.commit i)) =
        x.locked.flatMap (s.deliversFor reg B (.db (.commit i))) := by
      show (s.db.txns i).elim [] _ = _
      rw [hx]
      rfl
    have habout : ∀ k' : TaskId, k' ≠ k → ∀ d : Display,
        d.after k (onChannel partner (s.deliversFor reg B (.db (.commit i)) k')) = d := by
      intro k' hk d
      refine after_other hk (fun m hm => ?_) d
      obtain ⟨e, he, rfl⟩ := List.mem_map.1 hm
      exact deliversFor_about hi h k' e (List.mem_of_mem_filter he)
    -- the rows locked are distinct
    have key : ∀ (L : List TaskId) (d : Display), L.Nodup → d.after k (onChannel partner
        (L.flatMap (s.deliversFor reg B (.db (.commit i))))) =
          if k ∈ L then d.after k (onChannel partner (s.deliversFor reg B (.db (.commit i)) k))
          else d := by
      intro L
      induction L with
      | nil => intro d _; rfl
      | cons k' L ih =>
        intro d hn
        obtain ⟨hk', hn⟩ := List.nodup_cons.1 hn
        rw [List.flatMap_cons, onChannel_append, after_append, ih _ hn]
        by_cases he : k' = k
        · subst he
          rw [if_neg hk', if_pos List.mem_cons_self]
        · rw [habout k' he]
          simp only [List.mem_cons, Ne.symm he, false_or]
    rw [hdel, key _ d (hi.wf.txn i x hx).nodup]
    split_ifs with hk
    · rfl
    · rw [hnil (by rw [rowActs_commit hx, if_neg hk])]
      rfl
  · have hc : ∀ i, ev ≠ .db (.commit i) := fun i he => hc ⟨i, he⟩
    cases ev with
    | db e => cases e with
      | commit i => exact absurd rfl (hc i)
      | _ => rfl
    | _ => rfl

theorem channel_after {es : List Ev} {ok : Sys → Ev → Prop} (hi : Inv reg s)
    (hp : Path (Sys.step reg) ok s es s') (k : TaskId) (d : Display) :
    d.after k (channel reg B partner s es) =
      d.after k (onChannel partner (deliveredFor reg B k s es)) := by
  unfold deliveredFor
  rw [← emitted_outputs hi hp k]
  show d.after k (onChannel partner (emitted (Sys.step reg) (Sys.delivers reg B) s es)) = _
  induction hp generalizing d with
  | nil s => rfl
  | @cons s s₁ s₂ e es hok hs h ih =>
    simp only [emitted, hs, Option.map_some, Option.getD_some, onChannel_append, after_append]
    rw [ih (hi.step hs), delivers_after hi hs]
    rfl

/-- **Clients show the table.** After any run, a client that has followed the channel of the
creator's partner from the start shows each task in its committed state with its committed progress,
a task that is assigned as pending. -/
theorem client_shows {s₀ : Sys} {es : List Ev} {t : Task} (h0 : Start s₀)
    (hp : Path (Sys.step reg) DrawsOnce s₀ es s) (ht : s.db.cur.row k = some t)
    (hB : B.partnerId t.createUid = some partner) :
    ((s₀.db.cur.row k).elim .initial Task.display).after k (channel reg B partner s₀ es) =
      t.display := by
  rw [channel_after h0.inv hp]
  exact delivered_display h0 hp ht hB

def openBus : Bus := ⟨fun uid => some (100 + uid), fun _ => true⟩

def exported : List Ev := [
  .db (.begin (.claimTask (exportClaim 1) id fun _ => 7)), .db (.lock 0), .db (.commit 0),
  .db (.begin (.actionStart 7 1 101)), .db (.lock 1), .db (.commit 1),
  .db (.begin (.updateProgress [(1, 40)])), .db (.lock 2), .db (.commit 2),
  .db (.begin (.execute 7 1 102 [] (.returns none))), .db (.lock 3), .db (.commit 3)]

theorem exported_shows : ∃ s t, Path (Sys.step []) DrawsOnce (Sys.init oneTask) exported s ∧
    s.db.cur.row 1 = some t ∧ t.display = ⟨.done, 100⟩ ∧
    (((Sys.init oneTask).db.cur.row 1).elim .initial Task.display).after 1
      (channel [] openBus 102 (Sys.init oneTask) exported) = t.display := by
  have hp : Path (Sys.step []) DrawsOnce (Sys.init oneTask) exported _ :=
    path_reached (by decide +kernel)
  obtain ⟨t, ht, hd⟩ : ∃ t, (reached (Sys.step []) DrawsOnce (Sys.init oneTask)
      exported).db.cur.row 1 = some t ∧ (t.display = ⟨.done, 100⟩ ∧ t.createUid = 2) :=
    ⟨_, rfl, by decide +kernel⟩
  exact ⟨_, t, hp, ht, hd.1, client_shows (Start.init (by decide)) hp ht
    (by rw [hd.2]; rfl)⟩

/-! ## What is shown in the course of a run -/

def BusMessage.shownState : BusMessage → Option TaskState
  | .taskUpdate _ state _ => some state
  | _ => none

def BusMessage.toastType : BusMessage → Option String
  | .simpleNotification _ _ type _ => some type
  | _ => none

/-- The toast that goes with a state. -/
def TaskState.toastType : TaskState → Option String
  | .done => some "success"
  | .failed => some "danger"
  | _ => none

def shownStates (l : List (PartnerId × BusMessage)) : List TaskState :=
  l.filterMap fun e => e.2.shownState

def toastTypes (l : List (PartnerId × BusMessage)) : List String :=
  l.filterMap fun e => e.2.toastType

/-- Messages about a task that is now `u`, to a client that showed it in state `st₀`: all of them go
to one partner; the states shown are a path of visible transitions that ends in the state of the
task; a type that opts in adds a toast to each `done` and `failed`, any other none. -/
structure ShownTo (B : Bus) (partner : PartnerId) (st₀ : TaskState)
    (l : List (PartnerId × BusMessage)) (u : Task) : Prop where
  addressed : ∀ e ∈ l, e.1 = partner
  path : (st₀ :: shownStates l).IsChain fun st st' => st' ∈ st.nextVisible
  last : (st₀ :: shownStates l).getLast? = some u.state.visible
  toasts : toastTypes l = if B.notifyOnCompletion u.typeCode then
    (shownStates l).filterMap TaskState.toastType else []

theorem send_eq {t : Task} (h : B.partnerId t.createUid = some partner) (m : BusMessage) :
    B.send t m = [(partner, m)] := by
  unfold Bus.send
  rw [h]
  rfl

theorem ShownTo.moved {st₀ : TaskState} {l : List (PartnerId × BusMessage)} {t t' : Task}
    {m : List (PartnerId × BusMessage)} (h : ShownTo B partner st₀ l t)
    (hs : t'.state ∈ t.state.visible.nextVisible) (hc : t'.typeCode = t.typeCode)
    (hm : ∀ e ∈ m, e.1 = partner) (hshow : shownStates m = [t'.state])
    (htoast : toastTypes m =
      if B.notifyOnCompletion t'.typeCode then t'.state.toastType.toList else []) :
    ShownTo B partner st₀ (l ++ m) t' := by
  have hst : shownStates (l ++ m) = shownStates l ++ [t'.state] := by
    rw [← hshow]
    exact List.filterMap_append
  refine ⟨fun e he => ?_, ?_, ?_, ?_⟩
  · exact (List.mem_append.1 he).elim (h.addressed e) (hm e)
  · rw [hst, ← List.cons_append]
    refine h.path.append (List.isChain_singleton _) fun x hx y hy => ?_
    rw [h.last] at hx
    obtain rfl := Option.some.inj hx
    obtain rfl := Option.some.inj hy
    exact hs
  · rw [hst, ← List.cons_append, List.getLast?_append]
    revert hs
    cases t.state <;> cases t'.state <;> first | exact fun _ => rfl | exact nofun
  · have : toastTypes (l ++ m) = toastTypes l ++ toastTypes m := List.filterMap_append
    rw [this, h.toasts, htoast, hst, hc]
    split_ifs
    · rw [List.filterMap_append]
      cases t'.state <;> rfl
    · rfl

theorem ShownTo.step {st₀ : TaskState} {l m : List (PartnerId × BusMessage)} {t t' : Task}
    (h : ShownTo B partner st₀ l t) (hp : B.partnerId t'.createUid = some partner)
    (hsame : SameCreator t t') (hn : Notified B t t' m) : ShownTo B partner st₀ (l ++ m) t' := by
  have one : ∀ ms : List BusMessage, ∀ e ∈ ms.map (fun m => (partner, m)), e.1 = partner := by
    intro ms e he
    obtain ⟨m, -, rfl⟩ := List.mem_map.1 he
    rfl
  cases hn with
  | silent hd =>
    rw [List.append_nil]
    have hst : t'.state.visible = t.state.visible := congrArg Display.state hd
    exact ⟨h.addressed, h.path, by rw [h.last, hst], by rw [h.toasts, hsame.typeCode]⟩
  | progress hst =>
    rw [Bus.notifyProgress, send_eq hp]
    have h1 : shownStates (l ++ [(partner, BusMessage.taskProgress t'.id t'.progress)]) =
        shownStates l := by simp [shownStates, BusMessage.shownState]
    have h2 : toastTypes (l ++ [(partner, BusMessage.taskProgress t'.id t'.progress)]) =
        toastTypes l := by simp [toastTypes, BusMessage.toastType]
    refine ⟨fun e he => (List.mem_append.1 he).elim (h.addressed e) (one [_] e), ?_, ?_, ?_⟩
    · rw [h1]; exact h.path
    · rw [h1, h.last, hst]
    · rw [h1, h2, h.toasts, hsame.typeCode]
  | moved hs hne =>
    rw [Bus.notifyStateChange, send_eq hp]
    refine h.moved hs hsame.typeCode (one [_]) rfl ?_
    revert hne
    cases t'.state <;> simp [toastTypes, BusMessage.toastType, TaskState.toastType]
  | completed hs hdone =>
    rw [Bus.notifyStateChange, send_eq hp, Bus.notifyCompletion, send_eq hp]
    refine h.moved hs hsame.typeCode (fun e he => ?_) ?_ ?_
    · revert e
      split <;> simp
    · split <;> simp [shownStates, BusMessage.shownState]
    · rcases hdone with hd | hd <;> rw [hd] <;> split <;> rfl

theorem count_done_le {st₀ : TaskState} {l : List TaskState}
    (h : (st₀ :: l).IsChain fun st st' => st' ∈ st.nextVisible) : (st₀ :: l).count .done ≤ 1 := by
  induction l generalizing st₀ with
  | nil => exact List.count_le_length
  | cons st l ih =>
    obtain ⟨hst, hrest⟩ := List.isChain_cons_cons.1 h
    have hne : st₀ ≠ .done := by
      rintro rfl
      cases hst
    rw [List.count_cons_of_ne hne]
    exact ih hrest

/-- **What clients are told.** All messages about a task go to the partner of its creator. In any
run the states they show are a path of visible transitions, from the state at the start to the one
that is committed, so `done` is shown once at most; the toasts are one for each `done` and `failed`
that is shown if the task's type opts in, and none otherwise. -/
theorem client_path {s₀ : Sys} {es : List Ev} {t : Task} (h0 : Start s₀)
    (hp : Path (Sys.step reg) DrawsOnce s₀ es s) (ht : s.db.cur.row k = some t)
    (hB : B.partnerId t.createUid = some partner) :
    ShownTo B partner ((s₀.db.cur.row k).elim .pending fun t₀ => t₀.state.visible)
        (deliveredFor reg B k s₀ es) t ∧
      (shownStates (deliveredFor reg B k s₀ es)).count .done ≤ 1 := by
  obtain ⟨b, hrun⟩ := row_history h0.inv hp k
  have hshown : ShownTo B partner ((s₀.db.cur.row k).elim .pending fun t₀ => t₀.state.visible)
      (deliveredFor reg B k s₀ es) t := by
    refine outputs_task (f := RowAct.messages B) (P := fun l u =>
      B.partnerId u.createUid = some partner → ShownTo B partner
        ((s₀.db.cur.row k).elim .pending fun t₀ => t₀.state.visible) l u)
      ?_ ?_ (created_once h0 hp k) hrun ?_ t ht hB
    · intro hnone v _
      rw [show s₀.db.cur.row k = none from hnone]
      exact ⟨fun _ he => absurd he List.not_mem_nil, .singleton _, rfl,
        by simp [RowAct.messages, toastTypes, shownStates]⟩
    · intro l a u u' hl hs hr hu
      obtain ⟨hsame, hn⟩ := RowAct.notified (B := B) hs hr
      exact (hl (hsame.createUid ▸ hu)).step hu hsame hn
    · intro u hu _
      rw [show s₀.db.cur.row k = some u from hu]
      exact ⟨fun _ he => absurd he List.not_mem_nil, .singleton _, rfl,
        by simp [toastTypes, shownStates]⟩
  refine ⟨hshown, Nat.le_trans ?_ (count_done_le hshown.path)⟩
  exact (List.sublist_cons_self _ _).count_le _

theorem exported_path : ∃ s t, Path (Sys.step []) DrawsOnce (Sys.init oneTask) exported s ∧
    s.db.cur.row 1 = some t ∧
    shownStates (deliveredFor [] openBus 1 (Sys.init oneTask) exported) = [.running, .done] ∧
    ShownTo openBus 102 .pending (deliveredFor [] openBus 1 (Sys.init oneTask) exported) t ∧
    (shownStates (deliveredFor [] openBus 1 (Sys.init oneTask) exported)).count .done ≤ 1 := by
  have hp : Path (Sys.step []) DrawsOnce (Sys.init oneTask) exported _ :=
    path_reached (by decide +kernel)
  obtain ⟨t, ht, hu⟩ : ∃ t, (reached (Sys.step []) DrawsOnce (Sys.init oneTask)
      exported).db.cur.row 1 = some t ∧ t.createUid = 2 := ⟨_, rfl, by decide +kernel⟩
  exact ⟨_, t, hp, ht, by decide +kernel, client_path (Start.init (by decide)) hp ht
    (by rw [hu]; rfl)⟩

end GenericTaskQueue
