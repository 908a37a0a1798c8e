import Mathlib.Data.List.Basic
import Mathlib.Data.List.Forall2

/-!
# Traversals that may fail

`List.mapM` in `Except`: it succeeds exactly with the list of the results (`mapM_eq_ok_iff`). A fold
whose every step appends what its element describes is one traversal, and then one append
(`foldlM_appends`).
-/

namespace Traverse

universe u

variable {α : Type*} {ε β σ : Type u}

/-- A traversal that succeeds has each result in its place. -/
theorem mapM_eq_ok_iff {f : α → Except ε β} {l : List α} {l' : List β} :
    l.mapM f = .ok l' ↔ List.Forall₂ (fun a b => f a = .ok b) l l' := by
  induction l generalizing l' with
  | nil =>
    rw [List.forall₂_nil_left_iff]
    exact ⟨fun h => (Except.ok.inj h).symm, fun h => h ▸ rfl⟩
  | cons a l ih =>
    rw [List.mapM_cons, List.forall₂_cons_left_iff]
    constructor
    · intro h
      cases hfa : f a with
      | error e => rw [hfa] at h; cases h
      | ok b =>
        cases hl : l.mapM f with
        | error e => rw [hfa, hl] at h; cases h
        | ok bs =>
          rw [hfa, hl] at h
          exact ⟨b, bs, rfl, ih.1 hl, (Except.ok.inj h).symm⟩
    · rintro ⟨b, bs, hb, hbs, rfl⟩
      rw [hb, ih.2 hbs]
      rfl

theorem mapM_ok {f : α → Except ε β} {g : α → β} {l : List α} (h : ∀ a ∈ l, f a = .ok (g a)) :
    l.mapM f = .ok (l.map g) := by
  rw [mapM_eq_ok_iff, List.forall₂_map_right_iff, List.forall₂_same]
  exact h

theorem mapM_guard {P : α → Prop} [DecidablePred P] {r : α → β} {e : α → ε} (l : List α) :
    l.mapM (fun a => if P a then Except.ok (r a) else .error (e a)) =
      (l.find? fun a => ¬ P a).elim (.ok (l.map r)) fun a => .error (e a) := by
  induction l with
  | nil => rfl
  | cons a l ih =>
    rw [List.mapM_cons]
    by_cases h : P a
    · rw [if_pos h, ih, List.find?_cons_of_neg (by simpa using h)]
      cases l.find? fun a => ¬ P a <;> rfl
    · rw [if_neg h, List.find?_cons_of_pos (by simpa using h)]
      rfl

/-- Two traversals, the first of which succeeds, in one. -/
theorem mapM_bind {γ : Type u} {f : α → Except ε γ} {f' : α → γ} {g : γ → Except ε β} {l : List α}
    (h : ∀ a ∈ l, f a = .ok (f' a)) :
    (l.mapM f >>= fun l' => l'.mapM g) = l.mapM fun a => f a >>= g := by
  induction l with
  | nil => rfl
  | cons a l ih =>
    rw [List.mapM_cons, List.mapM_cons, h a List.mem_cons_self,
      ← ih fun b hb => h b (List.mem_cons_of_mem _ hb),
      mapM_ok fun b hb => h b (List.mem_cons_of_mem _ hb)]
    show (f' a :: l.map f').mapM g = _
    rw [List.mapM_cons]
    rfl

theorem forall₂_right {γ δ : Type*} {R : γ → δ → Prop} {P : δ → Prop} {l : List γ} {l' : List δ}
    (h : List.Forall₂ R l l') (hP : ∀ a b, R a b → P b) : ∀ b ∈ l', P b := by
  induction h with
  | nil => exact List.forall_mem_nil _
  | cons hab _ ih => exact List.forall_mem_cons.2 ⟨hP _ _ hab, ih⟩

theorem forall₂_comp {γ δ ζ : Type*} {R : γ → δ → Prop} {S : δ → ζ → Prop} {Q : γ → ζ → Prop}
    (hQ : ∀ a b c, R a b → S b c → Q a c) {l : List γ} {l₁ : List δ} {l₂ : List ζ}
    (h : List.Forall₂ R l l₁) (h' : List.Forall₂ S l₁ l₂) : List.Forall₂ Q l l₂ := by
  induction h generalizing l₂ with
  | nil =>
    cases h'
    exact .nil
  | cons hab _ ih =>
    cases h' with
    | cons hbc h' => exact .cons (hQ _ _ _ hab hbc) (ih h')

/-- A fold that appends, at every element, what the element stands for. -/
theorem foldlM_appends {step : σ → α → Except ε σ} {c : List β → σ}
    {g : α → Except ε (List β)}
    (h : ∀ acc a, step (c acc) a = (g a).map fun l => c (acc ++ l)) {l : List α}
    {acc : List β} :
    l.foldlM step (c acc) = (l.mapM g).map fun ls => c (acc ++ ls.flatten) := by
  induction l generalizing acc with
  | nil =>
    show Except.ok (c acc) = .ok (c (acc ++ [].flatten))
    rw [List.flatten_nil, List.append_nil]
  | cons a l ih =>
    rw [List.foldlM_cons, List.mapM_cons, h]
    cases g a with
    | error e => rfl
    | ok l₁ =>
      show l.foldlM step (c (acc ++ l₁)) = _
      rw [ih]
      cases l.mapM g with
      | error e => rfl
      | ok ls =>
        show Except.ok (c (acc ++ l₁ ++ ls.flatten)) = .ok (c (acc ++ (l₁ :: ls).flatten))
        rw [List.flatten_cons, List.append_assoc]

theorem foldlM_append_one {step : σ → α → Except ε σ} {c : List β → σ} {g : α → Except ε β}
    (h : ∀ acc a, step (c acc) a = (g a).map fun b => c (acc ++ [b])) {l : List α}
    {acc : List β} : l.foldlM step (c acc) = (l.mapM g).map fun bs => c (acc ++ bs) := by
  induction l generalizing acc with
  | nil =>
    show Except.ok (c acc) = .ok (c (acc ++ []))
    rw [List.append_nil]
  | cons a l ih =>
    rw [List.foldlM_cons, List.mapM_cons, h]
    cases g a with
    | error e => rfl
    | ok b =>
      show l.foldlM step (c (acc ++ [b])) = _
      rw [ih]
      cases l.mapM g with
      | error e => rfl
      | ok bs =>
        show Except.ok (c (acc ++ [b] ++ bs)) = .ok (c (acc ++ b :: bs))
        rw [List.append_assoc, List.singleton_append]

end Traverse
