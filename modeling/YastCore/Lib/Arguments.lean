import YastCore.Lib.Discipline

/-!
# Arguments evaluated in order

Arguments of a call are evaluated from left to right, in a state, up to the first whose value stops the
call or whose evaluation faults. Whatever the evaluations do, one of the three happens.
-/

namespace Arguments

variable {κ α ε σ : Type} (outcome : κ → EStateM ε σ α) (stop : α → Bool)

/-- The arguments are all evaluated, to these values, and none of them stops the call. -/
inductive Through : σ → List κ → List α → σ → Prop where
  | nil (s : σ) : Through s [] [] s
  | cons {s s' s'' : σ} {code : κ} {codes : List κ} {value : α} {values : List α}
      (first : outcome code s = .ok value s') (goes : stop value = false) (rest : Through s' codes values s'') :
      Through s (code :: codes) (value :: values) s''

/-- An argument stops the call, and none before it does. -/
inductive Stops : σ → List κ → σ → Prop where
  | here {s s' : σ} {code : κ} {codes : List κ} {value : α} (first : outcome code s = .ok value s')
      (halts : stop value = true) : Stops s (code :: codes) s'
  | later {s s' s'' : σ} {code : κ} {codes : List κ} {value : α} (first : outcome code s = .ok value s')
      (goes : stop value = false) (rest : Stops s' codes s'') : Stops s (code :: codes) s''

/-- The evaluation of an argument faults, and none before it stops the call. -/
inductive Faults : σ → List κ → ε → σ → Prop where
  | here {s s' : σ} {code : κ} {codes : List κ} {e : ε} (first : outcome code s = .error e s') :
      Faults s (code :: codes) e s'
  | later {s s' s'' : σ} {code : κ} {codes : List κ} {value : α} {e : ε} (first : outcome code s = .ok value s')
      (goes : stop value = false) (rest : Faults s' codes e s'') : Faults s (code :: codes) e s''

variable {outcome stop}

lemma Through.goes_on {s s' : σ} {codes : List κ} {values : List α} (h : Through outcome stop s codes values s') :
    ∀ value ∈ values, stop value = false := by
  induction h with
  | nil => exact List.forall_mem_nil _
  | cons _ goes _ ih => exact List.forall_mem_cons.mpr ⟨goes, ih⟩

theorem through_or_stops_or_faults (outcome : κ → EStateM ε σ α) (stop : α → Bool) (s : σ) (codes : List κ) :
    (∃ values s', Through outcome stop s codes values s') ∨ (∃ s', Stops outcome stop s codes s') ∨
      ∃ e s', Faults outcome stop s codes e s' := by
  induction codes generalizing s with
  | nil => exact .inl ⟨[], s, .nil s⟩
  | cons code codes ih =>
    cases hfirst : outcome code s with
    | error e s' => exact .inr (.inr ⟨e, s', .here hfirst⟩)
    | ok value s' =>
      cases hstop : stop value with
      | true => exact .inr (.inl ⟨s', .here hfirst hstop⟩)
      | false =>
        rcases ih s' with ⟨values, s'', h⟩ | ⟨s'', h⟩ | ⟨e, s'', h⟩
        · exact .inl ⟨_, s'', .cons hfirst hstop h⟩
        · exact .inr (.inl ⟨s'', .later hfirst hstop h⟩)
        · exact .inr (.inr ⟨e, s'', .later hfirst hstop h⟩)

end Arguments
