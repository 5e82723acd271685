import YastCore.Lib.Discipline

/-!
# Sequences of steps

Computations that run one after the other, up to the first whose answer ends the sequence. A relation
says what a run is, for answers and states of any type.
-/

namespace YastCore

namespace Sequence

variable {ε σ κ α : Type} (step : κ → EStateM ε σ α) (goesOn : α → Bool) (atEnd : α)

/-- The steps up to the first answer that does not go on; `atEnd` where there is none. -/
def run : List κ → EStateM ε σ α
  | [] => return atEnd
  | k :: ks => do
    let a ← step k
    if goesOn a then run ks else return a

/-- A run of the steps from a state to an answer and a state. -/
inductive Executes : List κ → σ → α → σ → Prop where
  | nil (s : σ) : Executes [] s atEnd s
  | stops {k : κ} {ks : List κ} {s s' : σ} {a : α} (hstep : step k s = .ok a s')
      (hstop : goesOn a = false) : Executes (k :: ks) s a s'
  | next {k : κ} {ks : List κ} {s s₁ s' : σ} {a b : α} (hstep : step k s = .ok a s₁)
      (hgo : goesOn a = true) (hrest : Executes ks s₁ b s') : Executes (k :: ks) s b s'

variable {step goesOn atEnd}

lemma run_ok_iff {ks : List κ} {s s' : σ} {a : α} :
    run step goesOn atEnd ks s = .ok a s' ↔ Executes step goesOn atEnd ks s a s' := by
  induction ks generalizing s with
  | nil =>
    constructor
    · intro h
      cases h
      exact .nil _
    · intro h
      cases h
      rfl
  | cons k ks ih =>
    constructor
    · intro h
      obtain ⟨b, s₁, hstep, hrest⟩ := EState.bind_ok_iff.mp h
      by_cases hgo : goesOn b = true
      · rw [if_pos hgo] at hrest
        exact .next hstep hgo (ih.mp hrest)
      · rw [if_neg hgo] at hrest
        cases hrest
        exact .stops hstep (Bool.eq_false_iff.mpr hgo)
    · intro h
      cases h with
      | stops hstep hstop =>
        apply EState.bind_ok_iff.mpr
        refine ⟨a, s', hstep, ?_⟩
        rw [hstop]
        rfl
      | next hstep hgo hrest =>
        apply EState.bind_ok_iff.mpr
        refine ⟨_, _, hstep, ?_⟩
        rw [if_pos hgo]
        exact ih.mpr hrest

/-- The steps of two lists: the second list runs exactly when the first one came to its end. -/
lemma executes_append_iff (hend : goesOn atEnd = true) {ks ls : List κ} {s s' : σ} {a : α} :
    Executes step goesOn atEnd (ks ++ ls) s a s' ↔
      (Executes step goesOn atEnd ks s a s' ∧ goesOn a = false) ∨
        ∃ s₁, Executes step goesOn atEnd ks s atEnd s₁ ∧
          Executes step goesOn atEnd ls s₁ a s' := by
  induction ks generalizing s with
  | nil =>
    constructor
    · intro h
      exact .inr ⟨s, .nil s, h⟩
    · rintro (⟨h, hstop⟩ | ⟨s₁, h, hrest⟩)
      · cases h
        rw [hend] at hstop
        cases hstop
      · cases h
        exact hrest
  | cons k ks ih =>
    constructor
    · intro h
      cases h with
      | stops hstep hstop => exact .inl ⟨.stops hstep hstop, hstop⟩
      | next hstep hgo hrest =>
        rcases ih.mp hrest with ⟨h, hstop⟩ | ⟨s₂, h, hrest⟩
        · exact .inl ⟨.next hstep hgo h, hstop⟩
        · exact .inr ⟨s₂, .next hstep hgo h, hrest⟩
    · rintro (⟨h, hstop⟩ | ⟨s₁, h, hrest⟩)
      · cases h with
        | stops hstep _ => exact .stops hstep hstop
        | next hstep hgo h => exact .next hstep hgo (ih.mpr (.inl ⟨h, hstop⟩))
      · cases h with
        | stops _ hstop =>
          rw [hend] at hstop
          cases hstop
        | next hstep hgo h => exact .next hstep hgo (ih.mpr (.inr ⟨s₁, h, hrest⟩))

end Sequence

end YastCore
