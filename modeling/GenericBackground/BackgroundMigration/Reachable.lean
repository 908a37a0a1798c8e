import GenericBackground.BackgroundMigration.Steps

/-!
# What every reachable state keeps

The threads execute tasks of the migration, and the tasks keep what `_enqueue_task` has given them
(`Wf`); they are the only ones with the key of the migration as long as `migrate()` spawns no other
(`Queued`).
-/

namespace GenericBackgroundMigration

open GenericTaskQueue Traced Lts

variable {k : MigrationKey} {s s' : System} {ev : Ev} {id : TaskId} {t t' : Task}

/-! ## Threads and attempts -/

/-- The thread is in phase 2. -/
def ThreadPhase.executes : ThreadPhase → Bool
  | .executing _ _ _ => true
  | _ => false

/-- What a step makes of the threads. -/
inductive ThreadStep (k : MigrationKey) (s : System) (r : RunnerId) (th : TaskThread) : Prop
  | old {th₀ : TaskThread} (h : s.threads r = some th₀) (ht : th.task = th₀.task)
      (hp : th = th₀ ∨ th.phase.executes = false)
  | claimed {t : Task} (ht : s.own k th.task = some t) (hp : th.phase = .spawned)
  | executing {id : TaskId} {host : Host} {t : Task} (h : s.threads r = some ⟨id, .started⟩)
      (ht : s.db.tasks.get id = some t) (hth : th = ⟨id, .executing host t s.db.others⟩)

theorem threadStep_setPhase {S : System} {r r' : RunnerId} {th : TaskThread} {phase : ThreadPhase}
    (hS : S.threads = s.threads) (h : (S.setPhase r id phase).threads r' = some th)
    (hr : ThreadStep k s r ⟨id, phase⟩) : ThreadStep k s r' th := by
  unfold System.setPhase at h
  rcases update_eq_some.1 h with ⟨rfl, rfl⟩ | ⟨-, h⟩
  · exact hr
  · exact .old (hS ▸ h) rfl (.inl rfl)

theorem stepIn_thread (hw : Wf k s) (h : s.stepIn k ev.env ev.act = some s') {r : RunnerId}
    {th : TaskThread} (hth : s'.threads r = some th) : ThreadStep k s r th := by
  have old : s'.threads = s.threads → ThreadStep k s r th := fun he =>
    .old (he ▸ hth) rfl (.inl rfl)
  have moved : ∀ {r₀ : RunnerId} {id : TaskId} {ph phase : ThreadPhase},
      s.threads r₀ = some ⟨id, ph⟩ → phase.executes = false → ThreadStep k s r₀ ⟨id, phase⟩ :=
    fun h0 hp => .old h0 rfl (.inr hp)
  generalize ev.act = a at h
  cases stepIn_spec h with
  | claim ht => exact threadStep_setPhase rfl hth (.claimed ht rfl)
  | start h0 => exact threadStep_setPhase rfl hth (moved h0 rfl)
  | startRefused h0 => exact threadStep_setPhase rfl hth (moved h0 rfl)
  | execute h0 ht => exact threadStep_setPhase rfl hth (.executing h0 ht rfl)
  | finish hx =>
    obtain ⟨id, record, h0⟩ := (finished_spec hx).thread
    obtain ⟨-, rfl⟩ := hw.reads _ _ _ _ _ h0
    exact threadStep_setPhase rfl hth (moved h0 rfl)
  | abort h0 => exact threadStep_setPhase rfl hth (moved h0 rfl)
  | handleFailure h0 => exact threadStep_setPhase rfl hth (moved h0 rfl)
  | die h0 => exact threadStep_setPhase rfl hth (moved h0 rfl)
  | _ => exact old rfl

theorem step_thread (hw : Wf k s) (h : s.step k ev = some s') {r : RunnerId} {th : TaskThread}
    (hth : s'.threads r = some th) : ThreadStep k s r th := by
  obtain ⟨-, s₁, h₁, rfl⟩ := step_in h
  exact stepIn_thread hw h₁ hth

/-! ## The tasks and the record -/

section Changes

variable {V V' : Tasks} {o : Option Migration}

/-- What no step writes and every new task of the migration has, all of them have. -/
theorem Change.rows {P : Task → Prop} (hs : ∀ t t', Static t t' → P t → P t')
    (hq : ∀ t, Enqueued k t → P t) (h : Change k s ev V V' o) (hV : ∀ j t, V j = some t → P t) :
    ∀ j t, V' j = some t → P t := by
  have upd : ∀ {i t'}, P t' → ∀ j t, Function.update V i (some t') j = some t → P t := by
    intro i t' hP j t ht
    rcases update_eq_some.1 ht with ⟨-, rfl⟩ | ⟨-, ht⟩
    · exact hP
    · exact hV j t ht
  cases h with
  | same => exact hV
  | enqueued hr hid hfree ht hp => exact upd (hq _ ht)
  | reused => exact hV
  | stranded => exact hV
  | cancelled ha hc hV' =>
    intro j t ht
    rcases hV' j with h | ⟨u, u', hu, hu', hst, -⟩
    · exact hV j t (h ▸ ht)
    · obtain rfl := Option.some.inj (hu'.symm.trans ht)
      exact hs _ _ hst (hV j u hu)
  | moved ht hst hm => exact upd (hs _ _ hst (hV _ _ ht))
  | hooked ht hst ha he hb => exact upd (hs _ _ hst (hV _ _ ht))
  | disowned => exact hV

theorem Change.stays (h : Change k s ev V V' o) {j : TaskId} (ht : V j = some t) :
    ∃ t', V' j = some t' := by
  have upd : ∀ {i t'}, ∃ t'', Function.update V i (some t') j = some t'' := by
    intro i t'
    rw [Function.update_apply]
    split_ifs
    · exact ⟨t', rfl⟩
    · exact ⟨t, ht⟩
  cases h with
  | same => exact ⟨t, ht⟩
  | enqueued => exact upd
  | reused => exact ⟨t, ht⟩
  | stranded => exact ⟨t, ht⟩
  | cancelled ha hc hV' =>
    rcases hV' j with h | ⟨u, u', hu, hu', -⟩
    · exact ⟨t, h.trans ht⟩
    · exact ⟨u', hu'⟩
  | moved => exact upd
  | hooked => exact upd
  | disowned => exact ⟨t, ht⟩

theorem marked_key {now : ℕ} {state : MigrationState} {ended : HookEnd}
    (hk : ∀ r, o = some r → r.key = k) : ∀ r, marked now state ended o = some r → r.key = k := by
  intro r hr
  unfold marked at hr
  split_ifs at hr
  · obtain ⟨r₀, h0, rfl⟩ := Option.map_eq_some_iff.1 hr
    exact hk r₀ h0
  · exact hk r hr

theorem Change.record_key (h : Change k s ev V V' o) (hk : ∀ r, s.db.others = some r → r.key = k) :
    ∀ r, o = some r → r.key = k := by
  cases h with
  | same => exact hk
  | enqueued hr => exact fun r h => Option.some.inj h ▸ hr.key
  | reused hr => exact fun r h => Option.some.inj h ▸ hr.key
  | stranded hr => exact fun r h => Option.some.inj h ▸ hr.key
  | cancelled => exact hk
  | moved => exact hk
  | hooked => exact marked_key hk
  | disowned => exact marked_key hk

end Changes

theorem Grown.rows {V V' : Tasks} {P : Task → Prop} (h : Grown k V V')
    (hV : ∀ j t, V j = some t → P t) (hP : ∀ t, RowOk k t → P t) :
    ∀ j t, V' j = some t → P t := by
  intro j t ht
  rcases h j with he | ⟨-, u, hu, hrow, -⟩
  · exact hV j t (he ▸ ht)
  · exact Option.some.inj (hu.symm.trans ht) ▸ hP u hrow

theorem Grown.stays {V V' : Tasks} (h : Grown k V V') {j : TaskId} (ht : V j = some t) :
    V' j = some t := by
  rcases h j with he | ⟨hn, -⟩
  · rw [he, ht]
  · rw [hn] at ht
    cases ht

theorem Start.own_eq_none (h : System.Start k s) (j : TaskId) : s.own k j = none := by
  rw [Option.eq_none_iff_forall_ne_some]
  intro t ht
  obtain ⟨hg, ho⟩ := MigrationKey.task_eq_some.1 ht
  rw [h.no_task t (Table.get_eq_some_iff.1 hg).1] at ho
  cases ho

theorem Start.wf (h : System.Start k s) : Wf k s where
  rows j t ht := by rw [Start.own_eq_none h j] at ht; cases ht
  threads r th hth := by rw [h.no_thread r] at hth; cases hth
  reads r id host read record hth := by rw [h.no_thread r] at hth; cases hth
  record r hr := by rw [h.no_record] at hr; cases hr

theorem Wf.step (hw : Wf k s) (h : s.step k ev = some s') : Wf k s' := by
  obtain ⟨V, hg, -, hc⟩ := step_change hw h
  have stays : ∀ {j t}, s.own k j = some t → ∃ t', s'.own k j = some t' := fun ht =>
    hc.stays (hg.stays ht)
  constructor
  · exact hc.rows (fun t t' hs ht => ht.static hs) (fun t ht => ht.ok)
      (hg.rows hw.rows fun t ht => ht)
  · intro r th hth
    rcases step_thread hw h hth with ⟨h0, ht, -⟩ | ⟨ht, -⟩ | ⟨h0, -, rfl⟩
    · obtain ⟨t, h1⟩ := hw.threads r _ h0
      rw [ht]
      exact stays h1
    · exact stays ht
    · obtain ⟨t, h1⟩ := hw.threads r _ h0
      exact stays h1
  · intro r id host read record hth
    rcases step_thread hw h hth with ⟨h0, -, hp⟩ | ⟨-, hp⟩ | ⟨h0, ht, hth'⟩
    · rcases hp with rfl | hp
      · exact hw.reads r id host read record h0
      · cases hp
    · cases hp
    · -- phase 2 begins: the task is the one in the table
      obtain ⟨hid, hph⟩ := TaskThread.mk.inj hth'
      obtain ⟨-, rfl, -⟩ := ThreadPhase.executing.inj hph
      obtain ⟨t, h1⟩ := hw.threads r _ h0
      obtain rfl := Option.some.inj (ht.symm.trans (MigrationKey.task_eq_some.1 h1).1)
      exact ⟨hw.rows _ _ h1, (MigrationKey.task_id h1).trans hid.symm⟩
  · exact hc.record_key hw.record

theorem Wf.path {ok : System → Ev → Prop} {es : List Ev} (h : System.Start k s)
    (hp : Path (System.step k) ok s es s') : Wf k s' :=
  hp.inv (fun _ _ _ hw _ hs => Wf.step hw hs) (Start.wf h)

/-- What every state keeps while `migrate()` spawns no task of its own migration. -/
structure Queued (k : MigrationKey) (s : System) : Prop where
  wf : Wf k s
  enqueued : ∀ j t, s.own k j = some t → Enqueued k t

theorem Start.queued (h : System.Start k s) : Queued k s where
  wf := Start.wf h
  enqueued j t ht := by rw [Start.own_eq_none h j] at ht; cases ht

theorem Queued.change (hq : Queued k s) (hap : Apart k ev.act) (h : s.step k ev = some s') :
    Change k s ev (s.own k) (s'.own k) s'.db.others := by
  obtain ⟨V, -, hV, hc⟩ := step_change hq.wf h
  obtain rfl := hV hap
  exact hc

theorem Queued.step (hq : Queued k s) (hap : Apart k ev.act) (h : s.step k ev = some s') :
    Queued k s' :=
  ⟨hq.wf.step h,
    (hq.change hap h).rows (fun _ _ hs ht => ht.static hs) (fun _ ht => ht) hq.enqueued⟩

end GenericBackgroundMigration
