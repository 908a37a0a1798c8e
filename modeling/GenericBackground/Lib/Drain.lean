import GenericBackground.Lib.Path

/-!
# Working off

What is left to do, as a measure. If every step pays for what it counts, a run counts no more than
there was to do (`Path.total_add_le`). If from every state of an invariant in which something is
left a run leaves less, and keeps the invariant, then a run leaves nothing (`exists_drain`).
-/

namespace Lts

variable {S E : Type*} {step : S → E → Option S} {ok ok' : S → E → Prop}

theorem Path.of_events {s s' : S} {es : List E} (h : Path step ok' s es s')
    (hok : ∀ e ∈ es, ∀ s, ok s e) : Path step ok s es s' := by
  induction h with
  | nil s => exact .nil s
  | cons _ hs _ ih =>
    exact .cons (hok _ List.mem_cons_self _) hs (ih fun e he => hok e (List.mem_cons_of_mem _ he))

/-- **Rank rule.** Where every step pays for what it counts from a rank, so does the run. -/
theorem Path.total_add_le {I : S → Prop} {f : S → ℕ} {count : S → E → ℕ}
    (hI : ∀ s e s', I s → ok s e → step s e = some s' → I s' ∧ count s e + f s' ≤ f s) {s s' : S}
    {es : List E} (h : Path step ok s es s') (h0 : I s) : total step count s es + f s' ≤ f s := by
  induction h with
  | nil s => exact Nat.le_of_eq (Nat.zero_add _)
  | cons hok hs _ ih =>
    obtain ⟨h1, hstep⟩ := hI _ _ _ h0 hok hs
    have hrest := ih h1
    simp only [total, hs, Option.map_some, Option.getD_some]
    omega

/-- **Drain rule.** -/
theorem exists_drain (I Done : S → Prop) (μ : S → ℕ)
    (hwork : ∀ s, I s → ¬ Done s → ∃ es s', Path step ok s es s' ∧ I s' ∧ μ s' < μ s) {s : S}
    (hI : I s) : ∃ es s', Path step ok s es s' ∧ I s' ∧ Done s' := by
  induction hn : μ s using Nat.strongRecOn generalizing s with
  | ind n ih =>
    by_cases hd : Done s
    · exact ⟨[], s, .nil s, hI, hd⟩
    · obtain ⟨es, s₁, hp, hI₁, hlt⟩ := hwork s hI hd
      obtain ⟨es', s', hp', hI', hd'⟩ := ih (μ s₁) (hn ▸ hlt) hI₁ rfl
      exact ⟨es ++ es', s', hp.append hp', hI', hd'⟩

end Lts
