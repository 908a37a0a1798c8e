import Mathlib.Data.Int.Notation
import Mathlib.Data.Nat.Notation
import Mathlib.Logic.Function.Basic

/-!
# Runs of a step function

A system is a partial step function `step : S → E → Option S`. `Path step ok s es s'` says that
the events `es` lead from `s` to `s'` and that the condition `ok` holds of every step taken;
`checkedRun` computes the state that a list of events leads to. What a run counts is bounded by a
potential that every step pays from (`Path.total_potential`). A fencing token (`Fenced`) is a
resource that is fresh, then live, then spent, and whose uses all spend it: along any path it is
used at most once.
-/

namespace Lts

variable {S E : Type*}

/-- The events `es` lead from `s` to `s'`, and every step taken meets `ok`. -/
inductive Path (step : S → E → Option S) (ok : S → E → Prop) : S → List E → S → Prop
  | nil (s : S) : Path step ok s [] s
  | cons {s s₁ s₂ : S} {e : E} {es : List E} (hok : ok s e) (hs : step s e = some s₁)
      (h : Path step ok s₁ es s₂) : Path step ok s (e :: es) s₂

def anyStep : S → E → Prop := fun _ _ => True

instance (s : S) (e : E) : Decidable (anyStep s e) := inferInstanceAs (Decidable True)

/-- The state a list of events leads to, if every step meets `ok`. -/
def checkedRun (step : S → E → Option S) (ok : S → E → Prop) [∀ s e, Decidable (ok s e)] :
    S → List E → Option S
  | s, [] => some s
  | s, e :: es => if ok s e then (step s e).bind fun s' => checkedRun step ok s' es else none

/-- The state in which a checked run ends. -/
def reached (step : S → E → Option S) (ok : S → E → Prop) [∀ s e, Decidable (ok s e)] (s : S)
    (es : List E) : S := (checkedRun step ok s es).getD s

/-- The sum along a run of what each step counts. -/
def total (step : S → E → Option S) (count : S → E → ℕ) : S → List E → ℕ
  | _, [] => 0
  | s, e :: es => count s e + ((step s e).map fun s' => total step count s' es).getD 0

variable {step : S → E → Option S} {ok : S → E → Prop} {s s' s₁ s₂ : S} {e : E} {es : List E}

/-! ## Paths -/

theorem Path.cons_iff (hs : step s e = some s₁) :
    Path step ok s (e :: es) s₂ ↔ ok s e ∧ Path step ok s₁ es s₂ := by
  constructor
  · intro h
    cases h with
    | cons hok hs' h =>
      obtain rfl := Option.some.inj (hs.symm.trans hs')
      exact ⟨hok, h⟩
  · rintro ⟨hok, h⟩
    exact .cons hok hs h

theorem Path.imp {ok' : S → E → Prop} (hok : ∀ s e, ok s e → ok' s e)
    (h : Path step ok s es s') : Path step ok' s es s' := by
  induction h with
  | nil s => exact .nil s
  | cons h1 h2 _ ih => exact .cons (hok _ _ h1) h2 ih

theorem Path.and {ok' : S → E → Prop} (h : Path step ok s es s') (h' : Path step ok' s es s') :
    Path step (fun s e => ok s e ∧ ok' s e) s es s' := by
  induction h with
  | nil s => exact .nil s
  | cons hok hs _ ih =>
    obtain ⟨hok', h'⟩ := (Path.cons_iff hs).1 h'
    exact .cons ⟨hok, hok'⟩ hs (ih h')

theorem Path.concat (h : Path step ok s es s₁) (hok : ok s₁ e) (hs : step s₁ e = some s₂) :
    Path step ok s (es ++ [e]) s₂ := by
  induction h with
  | nil s => exact .cons hok hs (.nil s₂)
  | cons h1 h2 _ ih => exact .cons h1 h2 (ih hok hs)

theorem Path.append {es' : List E} (h : Path step ok s es s₁) (h' : Path step ok s₁ es' s₂) :
    Path step ok s (es ++ es') s₂ := by
  induction h with
  | nil s => exact h'
  | cons hok hs _ ih => exact .cons hok hs (ih h')

theorem path_of_checkedRun [∀ s e, Decidable (ok s e)] : ∀ {es : List E} {s : S},
    checkedRun step ok s es = some s' → Path step ok s es s' := by
  intro es
  induction es with
  | nil => intro s h; obtain rfl : s = s' := Option.some.inj h; exact .nil s
  | cons e es ih =>
    intro s h
    unfold checkedRun at h
    split at h
    · next hok =>
      obtain ⟨s₁, h1, h2⟩ := Option.bind_eq_some_iff.1 h
      exact .cons hok h1 (ih h2)
    · cases h

/-- The path that a checked run has found. -/
theorem path_reached [∀ s e, Decidable (ok s e)] (h : (checkedRun step ok s es).isSome = true) :
    Path step ok s es (reached step ok s es) := by
  obtain ⟨s', hs'⟩ := Option.isSome_iff_exists.1 h
  unfold reached
  rw [hs']
  exact path_of_checkedRun hs'

theorem checkedRun_concat [∀ s e, Decidable (ok s e)] (es : List E) (s : S) :
    checkedRun step ok s (es ++ [e]) =
      (checkedRun step ok s es).bind fun s' => if ok s' e then step s' e else none := by
  induction es generalizing s with
  | nil => simp [checkedRun]
  | cons e' es ih =>
    simp only [List.cons_append, checkedRun]
    split
    · rw [Option.bind_assoc]
      exact congrArg _ (funext ih)
    · rfl

theorem step_reached [∀ s e, Decidable (ok s e)]
    (h : (checkedRun step ok s (es ++ [e])).isSome = true) :
    step (reached step ok s es) e = some (reached step ok s (es ++ [e])) := by
  obtain ⟨s₂, h2⟩ := Option.isSome_iff_exists.1 h
  have h1 := h2
  rw [checkedRun_concat] at h1
  obtain ⟨s₁, h1, h3⟩ := Option.bind_eq_some_iff.1 h1
  split at h3
  · simp only [reached, h1, h2, Option.getD_some, h3]
  · cases h3

/-- **Invariant rule.** What every allowed step preserves holds at the end of every path. -/
theorem Path.inv {I : S → Prop} (hI : ∀ s e s', I s → ok s e → step s e = some s' → I s')
    (h : Path step ok s es s') (h0 : I s) : I s' := by
  induction h with
  | nil s => exact h0
  | cons h1 h2 _ ih => exact ih (hI _ _ _ h0 h1 h2)

/-- The invariant rule with a second invariant `J` already known to be kept. -/
theorem Path.inv_of {I J : S → Prop} (hJ : ∀ s e s', J s → ok s e → step s e = some s' → J s')
    (hI : ∀ s e s', J s → I s → ok s e → step s e = some s' → I s')
    (h : Path step ok s es s') (h0 : J s) (h1 : I s) : I s' :=
  (h.inv (I := fun s => J s ∧ I s)
    (fun _ _ _ hs hok h => ⟨hJ _ _ _ hs.1 hok h, hI _ _ _ hs.1 hs.2 hok h⟩) ⟨h0, h1⟩).2

/-- **History rule.** The invariant may also speak of the events taken so far. -/
theorem Path.inv_history {I : List E → S → Prop}
    (hI : ∀ h s e s', Path step anyStep s₁ h s → I h s → ok s e → step s e = some s' →
      I (h ++ [e]) s') (h : Path step ok s₁ es s') (h0 : I [] s₁) : I es s' := by
  suffices key : ∀ {s s' : S} {es : List E}, Path step ok s es s' →
      ∀ pre, Path step anyStep s₁ pre s → I pre s → I (pre ++ es) s' from key h [] (.nil s₁) h0
  intro s s' es h
  induction h with
  | nil s => intro pre _ hpre; simpa using hpre
  | cons hok hs _ ih =>
    intro pre hp hpre
    have := ih (pre ++ [_]) (hp.concat trivial hs) (hI _ _ _ _ hp hpre hok hs)
    simpa using this

/-! ## The steps of a run -/

/-- The run that starts in `s` and takes the events `es` goes from `s₁` to `s₂` by the event `e`. -/
def Takes (step : S → E → Option S) (s : S) (es : List E) (s₁ : S) (e : E) (s₂ : S) : Prop :=
  ∃ pre post, es = pre ++ e :: post ∧ Path step anyStep s pre s₁ ∧ step s₁ e = some s₂

theorem Path.unique {ok' : S → E → Prop} (h : Path step ok s es s₁)
    (h' : Path step ok' s es s₂) : s₁ = s₂ := by
  induction h with
  | nil s => cases h'; rfl
  | cons _ hs _ ih =>
    cases h' with
    | cons _ hs' h' =>
      obtain rfl := Option.some.inj (hs.symm.trans hs')
      exact ih h'

theorem Path.append_inv {pre post : List E} (h : Path step ok s (pre ++ post) s') :
    ∃ s₁, Path step ok s pre s₁ ∧ Path step ok s₁ post s' := by
  induction pre generalizing s with
  | nil => exact ⟨s, .nil s, h⟩
  | cons e pre ih =>
    cases h with
    | cons hok hs h =>
      obtain ⟨s₁, h1, h2⟩ := ih h
      exact ⟨s₁, .cons hok hs h1, h2⟩

/-- A step that a path takes meets its condition, in a state that the path reaches under it. -/
theorem Path.takes (h : Path step ok s es s') (ht : Takes step s es s₁ e s₂) :
    (∃ pre, Path step ok s pre s₁) ∧ ok s₁ e ∧ step s₁ e = some s₂ := by
  obtain ⟨pre, post, rfl, hpre, hs⟩ := ht
  obtain ⟨s₁', h1, h2⟩ := h.append_inv
  obtain rfl := h1.unique hpre
  cases h2 with
  | cons hok _ _ => exact ⟨⟨pre, h1⟩, hok, hs⟩

theorem Takes.cons {e' : E} (hs : step s e' = some s') (h : Takes step s' es s₁ e s₂) :
    Takes step s (e' :: es) s₁ e s₂ := by
  obtain ⟨pre, post, rfl, hpre, hst⟩ := h
  exact ⟨e' :: pre, post, rfl, .cons trivial hs hpre, hst⟩

theorem Takes.append (h : Takes step s es s₁ e s₂) (es' : List E) :
    Takes step s (es ++ es') s₁ e s₂ := by
  obtain ⟨pre, post, rfl, hpre, hs⟩ := h
  exact ⟨pre, post ++ es', by simp, hpre, hs⟩

/-- A run whose steps all meet a condition is a run under it. -/
theorem Path.of_takes {ok' : S → E → Prop} (h : Path step ok s es s')
    (hok : ∀ s₁ e s₂, Takes step s es s₁ e s₂ → ok' s₁ e) : Path step ok' s es s' := by
  induction h with
  | nil s => exact .nil s
  | @cons s s₁ s₂ e es _ hs _ ih =>
    exact .cons (hok s e s₁ ⟨[], es, rfl, .nil s, hs⟩) hs
      (ih fun t₁ e' t₂ ht => hok t₁ e' t₂ (ht.cons hs))

/-- **Transition rule.** A run at whose end `P` holds but not at its start has taken a step that
brought `P` about. -/
theorem Path.brought_about {P : S → Prop} (h : Path step ok s es s') (h0 : ¬ P s) (h1 : P s') :
    ∃ s₁ e s₂, Takes step s es s₁ e s₂ ∧ ¬ P s₁ ∧ P s₂ := by
  induction h with
  | nil s => exact absurd h1 h0
  | @cons s s₁ s₂ e es hok hs h ih =>
    by_cases hP : P s₁
    · exact ⟨s, e, s₁, ⟨[], es, rfl, .nil s, hs⟩, h0, hP⟩
    · obtain ⟨t₁, e', t₂, ht, h2, h3⟩ := ih hP h1
      exact ⟨t₁, e', t₂, ht.cons hs, h2, h3⟩

/-! ## What holds at some time of a run -/

/-- Some state of the run that starts in `s` and takes the events `es` meets `P`. -/
def Sometime (step : S → E → Option S) (P : S → Prop) (s : S) (es : List E) : Prop :=
  ∃ es₁ es₂ s₁, es = es₁ ++ es₂ ∧ Path step anyStep s es₁ s₁ ∧ P s₁

theorem Sometime.concat {P : S → Prop} (h : Sometime step P s es) (e : E) :
    Sometime step P s (es ++ [e]) := by
  obtain ⟨es₁, es₂, s₁, rfl, h1, h2⟩ := h
  exact ⟨es₁, es₂ ++ [e], s₁, by simp, h1, h2⟩

theorem Path.sometime {P : S → Prop} (h : Path step anyStep s es s') (hP : P s') :
    Sometime step P s es :=
  ⟨es, [], s', by simp, h, hP⟩

theorem Path.total_le {count count' : S → E → ℕ} (hc : ∀ s e, count s e ≤ count' s e)
    (h : Path step ok s es s') : total step count s es ≤ total step count' s es := by
  induction h with
  | nil s => exact Nat.le_refl 0
  | @cons s s₁ s₂ e es hok hs h ih =>
    simp only [total, hs, Option.map_some, Option.getD_some]
    exact Nat.add_le_add (hc s e) ih

/-- **Potential rule.** If every step pays for what it counts from the potential `f`, or from what
it counts on the other side, then so does the run. -/
theorem Path.total_potential {I : S → Prop} {f : S → ℤ} {count count' : S → E → ℕ}
    (hI : ∀ s e s', I s → ok s e → step s e = some s' →
      I s' ∧ (count s e : ℤ) + f s' ≤ f s + count' s e)
    (h : Path step ok s es s') (h0 : I s) :
    (total step count s es : ℤ) + f s' ≤ f s + total step count' s es := by
  induction h with
  | nil s => simp only [total]; omega
  | @cons s s₁ s₂ e es hok hs h ih =>
    obtain ⟨h1, hstep⟩ := hI s e s₁ h0 hok hs
    have hrest := ih h1
    simp only [total, hs, Option.map_some, Option.getD_some]
    omega

/-! ## What a run emits -/

/-- What the steps of a run emit, in order. -/
def emitted {O : Type*} (step : S → E → Option S) (out : S → E → List O) : S → List E → List O
  | _, [] => []
  | s, e :: es => out s e ++ ((step s e).map fun s' => emitted step out s' es).getD []

/-- **Emission rule.** An invariant of the state and of what has been emitted so far. -/
theorem Path.inv_emitted {O : Type*} {f : S → E → List O} {I : List O → S → Prop}
    (hI : ∀ l s e s', I l s → ok s e → step s e = some s' → I (l ++ f s e) s')
    (h : Path step ok s es s') {l : List O} (h0 : I l s) :
    I (l ++ emitted step f s es) s' := by
  induction h generalizing l with
  | nil s => simpa [emitted] using h0
  | @cons s s₁ s₂ e es hok hs _ ih =>
    have := ih (hI l s e s₁ h0 hok hs)
    simpa [emitted, hs, List.append_assoc] using this

theorem emitted_countP {O : Type*} (out : S → E → List O) (p : O → Bool) (s : S) (es : List E) :
    (emitted step out s es).countP p = total step (fun s e => (out s e).countP p) s es := by
  induction es generalizing s with
  | nil => rfl
  | cons e es ih =>
    simp only [emitted, total, List.countP_append]
    cases step s e with
    | none => rfl
    | some s' => exact congrArg _ (ih s')

/-! ## Fencing tokens -/

/-- The life of a token. -/
inductive Stage where
  | fresh
  | live
  | spent
  deriving DecidableEq, Repr

/-- A token whose uses are fenced: under the invariant `I`, a step uses it at most once, only
while it is live, and leaves it spent; a spent token stays spent. -/
structure Fenced (step : S → E → Option S) (ok : S → E → Prop) (I : S → Prop) (stage : S → Stage)
    (uses : S → E → ℕ) : Prop where
  inv : ∀ s e s', I s → ok s e → step s e = some s' → I s'
  le_one : ∀ s e s', I s → ok s e → step s e = some s' → uses s e ≤ 1
  live : ∀ s e s', I s → ok s e → step s e = some s' → 0 < uses s e →
    stage s = .live ∧ stage s' = .spent
  spent : ∀ s e s', I s → ok s e → step s e = some s' → stage s = .spent → stage s' = .spent

namespace Fenced

variable {I : S → Prop} {stage : S → Stage} {uses : S → E → ℕ}

theorem total_spent (F : Fenced step ok I stage uses) (h : Path step ok s es s') (hI : I s)
    (hs : stage s = .spent) : total step uses s es = 0 := by
  induction h with
  | nil s => rfl
  | @cons s s₁ s₂ e es hok hst h ih =>
    have h0 : uses s e = 0 := by
      by_contra hne
      have := (F.live _ _ _ hI hok hst (Nat.pos_of_ne_zero hne)).1
      rw [hs] at this
      cases this
    simp only [total, hst, Option.map_some, Option.getD_some, h0, Nat.zero_add]
    exact ih (F.inv _ _ _ hI hok hst) (F.spent _ _ _ hI hok hst hs)

/-- **At most one use.** Along any path a fenced token is used at most once. -/
theorem total_le_one (F : Fenced step ok I stage uses) (h : Path step ok s es s') (hI : I s) :
    total step uses s es ≤ 1 := by
  induction h with
  | nil s => exact Nat.zero_le 1
  | @cons s s₁ s₂ e es hok hst h ih =>
    have hI1 := F.inv _ _ _ hI hok hst
    simp only [total, hst, Option.map_some, Option.getD_some]
    by_cases h0 : uses s e = 0
    · rw [h0, Nat.zero_add]
      exact ih hI1
    · -- the step uses the token, so nothing after it does
      have hsp := (F.live _ _ _ hI hok hst (Nat.pos_of_ne_zero h0)).2
      rw [F.total_spent h hI1 hsp]
      exact F.le_one _ _ _ hI hok hst

end Fenced

end Lts
