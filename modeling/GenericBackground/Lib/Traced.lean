import Mathlib.Data.List.Nodup

/-!
# Transactions with a trace

A run of a transaction records events, in order, and ends with the state that it leaves or with the
error that rolls it back. `andThen` puts two procedures in sequence, `savepoint` catches an error
and goes on from the state before it, `each` goes through a list of keys. The trace of what was
called is kept in either case: only changes are rolled back.

A property of the state that a transaction brings about is accounted for by events of its trace
(`Accounted`), and a procedure that neither brings it about nor records such events is `Silent`. In
a sequence over distinct keys the events of one key are those of one procedure (`each_accounted`).
-/

namespace Traced

universe u

/-- The events of a run, and how it ends. -/
structure Run (ε α σ : Type u) where
  events : List ε
  result : Except α σ

variable {ε α σ κ : Type u}

namespace Run

def ok (s : σ) : Run ε α σ := ⟨[], .ok s⟩

/-- `es` happen before `r`. -/
def after (es : List ε) (r : Run ε α σ) : Run ε α σ := ⟨es ++ r.events, r.result⟩

def andThen (r : Run ε α σ) (f : σ → Run ε α σ) : Run ε α σ :=
  match r.result with
  | .ok s => (f s).after r.events
  | .error e => ⟨r.events, .error e⟩

/-- An error that the savepoint catches leaves the state `s` before it. -/
def savepoint (caught : α → Bool) (s : σ) (r : Run ε α σ) : Run ε α σ :=
  ⟨r.events, match r.result with
    | .ok s' => .ok s'
    | .error e => if caught e then .ok s else .error e⟩

/-- The same run, with its events under other names. -/
def relabel (f : ε → ε) (r : Run ε α σ) : Run ε α σ := ⟨r.events.map f, r.result⟩

/-- The state that it leaves, seen through `g`. -/
def map {τ : Type u} (g : σ → τ) (r : Run ε α σ) : Run ε α τ := ⟨r.events, r.result.map g⟩

@[simp] theorem ok_events (s : σ) : (ok s : Run ε α σ).events = [] := rfl

@[simp] theorem ok_result (s : σ) : (ok s : Run ε α σ).result = .ok s := rfl

@[simp] theorem after_events (es : List ε) (r : Run ε α σ) :
    (r.after es).events = es ++ r.events := rfl

@[simp] theorem after_result (es : List ε) (r : Run ε α σ) : (r.after es).result = r.result := rfl

@[simp] theorem after_nil (r : Run ε α σ) : r.after [] = r := rfl

@[simp] theorem savepoint_events (caught : α → Bool) (s : σ) (r : Run ε α σ) :
    (r.savepoint caught s).events = r.events := rfl

theorem andThen_of_ok {r : Run ε α σ} {f : σ → Run ε α σ} {s : σ} (h : r.result = .ok s) :
    r.andThen f = (f s).after r.events := by
  unfold andThen; rw [h]

theorem andThen_of_error {r : Run ε α σ} {f : σ → Run ε α σ} {e : α}
    (h : r.result = .error e) : r.andThen f = ⟨r.events, .error e⟩ := by
  unfold andThen; rw [h]

@[simp] theorem ok_andThen (s : σ) (f : σ → Run ε α σ) : (ok s).andThen f = f s := rfl

theorem andThen_ok {r : Run ε α σ} {f : σ → Run ε α σ} {s' : σ}
    (h : (r.andThen f).result = .ok s') : ∃ s, r.result = .ok s ∧ (f s).result = .ok s' := by
  rcases hr : r.result with e | s
  · rw [andThen_of_error hr] at h; cases h
  · rw [andThen_of_ok hr] at h; exact ⟨s, rfl, h⟩

theorem relabel_after {f : ε → ε} {es : List ε} {r : Run ε α σ} :
    (r.relabel f).after (es.map f) = (r.after es).relabel f := by
  unfold after relabel
  rw [List.map_append]

theorem relabel_andThen {l : ε → ε} {r r' : Run ε α σ} {f f' : σ → Run ε α σ}
    (hr : r' = r.relabel l) (hf : ∀ s, f' s = (f s).relabel l) :
    r'.andThen f' = (r.andThen f).relabel l := by
  subst hr
  rcases h : r.result with e | s
  · rw [andThen_of_error h, andThen_of_error (r := r.relabel l) h]
    rfl
  · rw [andThen_of_ok h, andThen_of_ok (r := r.relabel l) h, hf]
    exact relabel_after

theorem andThen_events {Q : List ε → Prop} {r : Run ε α σ} {f : σ → Run ε α σ}
    (happ : ∀ {l₁ l₂}, Q l₁ → Q l₂ → Q (l₁ ++ l₂)) (hr : Q r.events) (hf : ∀ s, Q (f s).events) :
    Q (r.andThen f).events := by
  rcases h : r.result with e | s
  · rw [andThen_of_error h]
    exact hr
  · rw [andThen_of_ok h]
    exact happ hr (hf s)

theorem savepoint_ok {caught : α → Bool} {s s' : σ} {r : Run ε α σ}
    (h : (r.savepoint caught s).result = .ok s') :
    r.result = .ok s' ∨ ((∃ e, r.result = .error e ∧ caught e = true) ∧ s' = s) := by
  unfold savepoint at h
  rcases hr : r.result with e | s₁
  · simp only [hr] at h
    split_ifs at h with hc
    exact .inr ⟨⟨e, rfl, hc⟩, (Except.ok.inj h).symm⟩
  · simp only [hr] at h
    exact .inl h

theorem map_ok {τ : Type u} {g : σ → τ} {r : Run ε α σ} {t : τ} (h : (r.map g).result = .ok t) :
    ∃ s, r.result = .ok s ∧ g s = t := by
  unfold map at h
  rcases hr : r.result with e | s
  · simp only [hr] at h; cases h
  · simp only [hr] at h; exact ⟨s, rfl, Except.ok.inj h⟩

end Run

/-- The procedure `f` for each of the keys. -/
def each (f : κ → σ → Run ε α σ) : List κ → σ → Run ε α σ
  | [], s => .ok s
  | k :: ks, s => (f k s).andThen (each f ks)

theorem each_relabel {l : ε → ε} {f f' : κ → σ → Run ε α σ}
    (h : ∀ k s, f' k s = (f k s).relabel l) :
    ∀ (ks : List κ) (s : σ), each f' ks s = (each f ks s).relabel l := by
  intro ks
  induction ks with
  | nil => exact fun _ => rfl
  | cons k ks ih => exact fun s => Run.relabel_andThen (h k s) ih

/-! ## What the trace accounts for -/

/-- From `s` the run brings about no `P`, and records nothing about it. -/
structure Silent (about : ε → Bool) (P : σ → Prop) (s : σ) (r : Run ε α σ) : Prop where
  events : r.events.filter about = []
  result : ∀ s', r.result = .ok s' → P s' → P s

/-- If the run brings about `P`, then by the events about it. -/
def Accounted (about : ε → Bool) (P : σ → Prop) (by' : List ε → Prop) (s : σ) (r : Run ε α σ) :
    Prop :=
  ∀ s', r.result = .ok s' → P s' → P s ∨ by' (r.events.filter about)

section Rules

variable {about : ε → Bool} {P : σ → Prop} {by' : List ε → Prop} {s : σ} {r : Run ε α σ}

theorem Silent.ok (s : σ) : Silent about P s (.ok s : Run ε α σ) :=
  ⟨rfl, fun _ h hP => by obtain rfl := Except.ok.inj h; exact hP⟩

theorem Silent.accounted (h : Silent about P s r) : Accounted about P by' s r :=
  fun s' hs hP => .inl (h.result s' hs hP)

theorem Silent.andThen {f : σ → Run ε α σ} (h : Silent about P s r)
    (hf : ∀ s₁, r.result = .ok s₁ → Silent about P s₁ (f s₁)) :
    Silent about P s (r.andThen f) := by
  rcases hr : r.result with e | s₁
  · rw [Run.andThen_of_error hr]
    exact ⟨h.events, nofun⟩
  · rw [Run.andThen_of_ok hr]
    refine ⟨?_, fun s' hs hP => h.result s₁ hr ((hf s₁ hr).result s' hs hP)⟩
    rw [Run.after_events, List.filter_append, h.events, (hf s₁ hr).events, List.append_nil]

theorem Accounted.of_silent {f : σ → Run ε α σ} (h : Silent about P s r)
    (hf : ∀ s₁, r.result = .ok s₁ → Accounted about P by' s₁ (f s₁)) :
    Accounted about P by' s (r.andThen f) := by
  intro s' hs hP
  obtain ⟨s₁, h1, h2⟩ := Run.andThen_ok hs
  rcases hf s₁ h1 s' h2 hP with hP1 | hb
  · exact .inl (h.result s₁ h1 hP1)
  · right
    rwa [Run.andThen_of_ok h1, Run.after_events, List.filter_append, h.events, List.nil_append]

theorem Accounted.andThen_silent {f : σ → Run ε α σ} (h : Accounted about P by' s r)
    (hf : ∀ s₁, r.result = .ok s₁ → Silent about P s₁ (f s₁)) :
    Accounted about P by' s (r.andThen f) := by
  intro s' hs hP
  obtain ⟨s₁, h1, h2⟩ := Run.andThen_ok hs
  rw [Run.andThen_of_ok h1, Run.after_events, List.filter_append, (hf s₁ h1).events,
    List.append_nil]
  exact h s₁ h1 ((hf s₁ h1).result s' h2 hP)

theorem Accounted.savepoint {caught : α → Bool} (h : Accounted about P by' s r) :
    Accounted about P by' s (r.savepoint caught s) := by
  intro s' hs hP
  rcases Run.savepoint_ok hs with hr | ⟨-, rfl⟩
  · exact h s' hr hP
  · exact .inl hP

theorem Silent.savepoint {caught : α → Bool} (h : Silent about P s r) :
    Silent about P s (r.savepoint caught s) := by
  refine ⟨h.events, fun s' hs hP => ?_⟩
  rcases Run.savepoint_ok hs with hr | ⟨-, rfl⟩
  · exact h.result s' hr hP
  · exact hP

variable {f : κ → σ → Run ε α σ} {k : κ}

theorem each_silent (hf : ∀ j, j ≠ k → ∀ s, Silent about P s (f j s)) :
    ∀ {ks : List κ}, k ∉ ks → ∀ s, Silent about P s (each f ks s) := by
  intro ks
  induction ks with
  | nil => exact fun _ s => .ok s
  | cons j ks ih =>
    intro hk s
    rw [List.mem_cons, not_or] at hk
    exact (hf j (fun h => hk.1 h.symm) s).andThen fun s₁ _ => ih hk.2 s₁

/-- **Account of one key.** Of procedures over distinct keys that keep the invariant `I`, only that
of `k` accounts for what is about `k`. -/
theorem each_accounted {I : σ → Prop} (hI : ∀ j s s', I s → (f j s).result = .ok s' → I s')
    (hf : ∀ j, j ≠ k → ∀ s, Silent about P s (f j s))
    (hk : ∀ s, I s → Accounted about P by' s (f k s)) :
    ∀ {ks : List κ}, ks.Nodup → ∀ s, I s → Accounted about P by' s (each f ks s) := by
  intro ks
  induction ks with
  | nil => exact fun _ s _ => (Silent.ok s).accounted
  | cons j ks ih =>
    intro hnd s hs
    obtain ⟨hj, hnd⟩ := List.nodup_cons.1 hnd
    by_cases h : j = k
    · subst h
      exact (hk s hs).andThen_silent fun s₁ _ => each_silent hf hj s₁
    · exact .of_silent (hf j h s) fun s₁ hs₁ => ih hnd s₁ (hI j s s₁ hs hs₁)

/-- What the events of every procedure satisfy, the events of all of them do, if sequences keep
it. -/
theorem each_events {Q : List ε → Prop} (hnil : Q []) (happ : ∀ {l₁ l₂}, Q l₁ → Q l₂ → Q (l₁ ++ l₂))
    (hf : ∀ j s, Q (f j s).events) : ∀ (ks : List κ) (s : σ), Q (each f ks s).events := by
  intro ks
  induction ks with
  | nil => exact fun _ => hnil
  | cons j ks ih => exact fun s => Run.andThen_events happ (hf j s) ih

end Rules

end Traced
