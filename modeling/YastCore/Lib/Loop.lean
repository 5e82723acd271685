import Mathlib.Tactic.Common
import Mathlib.Order.Basic

/-!
# Loops

A loop is given by what one pass through its body does. It ends when a pass does not go on; a measure
that every pass makes smaller shows that it does, a property that every pass keeps shows that it does
not.
-/

namespace YastCore.Loop

/-- What one pass does: it goes on, it leaves the loop with a result, or it stops the program. -/
inductive Pass (σ α : Type) where
  | again (s : σ)
  | returns (s : σ) (a : α)
  | crashes

variable {σ α : Type}

/-- So many passes, if the loop goes on for so long. -/
def passes (pass : σ → Pass σ α) : ℕ → σ → Pass σ α
  | 0, s => .again s
  | n + 1, s =>
    match pass s with
    | .again t => passes pass n t
    | last => last

/-- The loop leaves with this state and this result. -/
def Returns (pass : σ → Pass σ α) (s t : σ) (a : α) : Prop := ∃ n, passes pass n s = .returns t a

/-- The loop does not go on for ever. -/
def Ends (pass : σ → Pass σ α) (s : σ) : Prop := ∃ n, ∀ t, passes pass n s ≠ .again t

variable {pass : σ → Pass σ α} {s s' t t' : σ} {a b : α}

lemma passes_of_again (h : pass s = .again s') (n : ℕ) : passes pass (n + 1) s = passes pass n s' := by
  rw [passes, h]

lemma passes_of_returns (h : pass s = .returns t a) (n : ℕ) : passes pass (n + 1) s = .returns t a := by
  rw [passes, h]

lemma passes_of_crashes (h : pass s = .crashes) (n : ℕ) : passes pass (n + 1) s = .crashes := by
  rw [passes, h]

lemma passes_mono {n m : ℕ} (h : passes pass n s = .returns t a) (hle : n ≤ m) :
    passes pass m s = .returns t a := by
  induction n generalizing s m with
  | zero => cases h
  | succ n ih =>
    cases m with
    | zero => omega
    | succ m =>
      cases hpass : pass s with
      | again s' =>
        rw [passes_of_again hpass] at h ⊢
        exact ih h (by omega)
      | returns s' b =>
        rw [passes_of_returns hpass] at h ⊢
        exact h
      | crashes =>
        rw [passes_of_crashes hpass] at h
        cases h

lemma Returns.ends (h : Returns pass s t a) : Ends pass s := by
  obtain ⟨n, hn⟩ := h
  exact ⟨n, fun u hu => by rw [hn] at hu; cases hu⟩

lemma Returns.unique (h : Returns pass s t a) (h' : Returns pass s t' b) : t = t' ∧ a = b := by
  obtain ⟨n, hn⟩ := h
  obtain ⟨m, hm⟩ := h'
  have hboth := passes_mono hn (Nat.le_max_left n m)
  rw [passes_mono hm (Nat.le_max_right n m), Pass.returns.injEq] at hboth
  exact ⟨hboth.1.symm, hboth.2.symm⟩

lemma again_of_not_ends (h : ¬ Ends pass s) (n : ℕ) : ∃ t, passes pass n s = .again t := by
  by_contra hnone
  exact h ⟨n, fun t ht => hnone ⟨t, ht⟩⟩

lemma returns_of_again (h : pass s = .again s') : Returns pass s t a ↔ Returns pass s' t a := by
  constructor
  · rintro ⟨n, hn⟩
    cases n with
    | zero => cases hn
    | succ n => exact ⟨n, by rw [← passes_of_again h, hn]⟩
  · rintro ⟨n, hn⟩
    exact ⟨n + 1, by rw [passes_of_again h, hn]⟩

lemma returns_of_returns (h : pass s = .returns t a) : Returns pass s t' b ↔ t = t' ∧ a = b := by
  constructor
  · rintro ⟨n, hn⟩
    cases n with
    | zero => cases hn
    | succ n =>
      rw [passes_of_returns h, Pass.returns.injEq] at hn
      exact hn
  · rintro ⟨rfl, rfl⟩
    exact ⟨1, passes_of_returns h 0⟩

lemma not_returns_of_crashes (h : pass s = .crashes) : ¬ Returns pass s t a := by
  rintro ⟨n, hn⟩
  cases n with
  | zero => cases hn
  | succ n =>
    rw [passes_of_crashes h] at hn
    cases hn

lemma ends_of_again (h : pass s = .again s') : Ends pass s ↔ Ends pass s' := by
  constructor
  · rintro ⟨n, hn⟩
    cases n with
    | zero => exact absurd rfl (hn s)
    | succ n => exact ⟨n, fun t => by rw [← passes_of_again h]; exact hn t⟩
  · rintro ⟨n, hn⟩
    exact ⟨n + 1, fun t => by rw [passes_of_again h]; exact hn t⟩

lemma ends_of_leaves (h : ∀ t, pass s ≠ .again t) : Ends pass s := by
  refine ⟨1, fun t ht => ?_⟩
  cases hpass : pass s with
  | again s' => exact h s' hpass
  | returns t' a =>
    rw [passes_of_returns hpass] at ht
    cases ht
  | crashes =>
    rw [passes_of_crashes hpass] at ht
    cases ht

/-- A loop whose passes make a measure smaller ends. -/
theorem ends_of_measure (measure : σ → ℕ) (P : σ → Prop)
    (hstep : ∀ s t, P s → pass s = .again t → P t ∧ measure t < measure s) (hs : P s) : Ends pass s := by
  induction hm : measure s using Nat.strongRecOn generalizing s with
  | ind m ih =>
    by_cases hagain : ∃ t, pass s = .again t
    · obtain ⟨t, ht⟩ := hagain
      obtain ⟨hPt, hless⟩ := hstep s t hs ht
      rw [ends_of_again ht]
      exact ih _ (hm ▸ hless) hPt rfl
    · exact ends_of_leaves fun t ht => hagain ⟨t, ht⟩

/-- A loop that ends and never stops the program returns. -/
theorem returns_of_ends (P : σ → Prop)
    (hstep : ∀ s, P s → pass s ≠ .crashes ∧ ∀ t, pass s = .again t → P t) (hs : P s)
    (hends : Ends pass s) : ∃ t a, Returns pass s t a := by
  obtain ⟨n, hn⟩ := hends
  induction n generalizing s with
  | zero => exact absurd rfl (hn s)
  | succ n ih =>
    obtain ⟨hcrash, hagain⟩ := hstep s hs
    cases hpass : pass s with
    | again s' =>
      obtain ⟨t, a, hreturns⟩ := ih (hagain s' hpass) fun t => by
        rw [← passes_of_again hpass]
        exact hn t
      exact ⟨t, a, (returns_of_again hpass).mpr hreturns⟩
    | returns t a => exact ⟨t, a, (returns_of_returns hpass).mpr ⟨rfl, rfl⟩⟩
    | crashes => exact absurd hpass hcrash

/-- A loop all of whose passes go on, and keep what makes them go on, does not end. -/
theorem not_ends_of_invariant (P : σ → Prop) (hstep : ∀ s, P s → ∃ t, pass s = .again t ∧ P t) (hs : P s) :
    ¬ Ends pass s := by
  rintro ⟨n, hn⟩
  induction n generalizing s with
  | zero => exact hn s rfl
  | succ n ih =>
    obtain ⟨t, ht, hPt⟩ := hstep s hs
    refine ih hPt fun u hu => hn u ?_
    rw [passes_of_again ht, hu]

/-- A loop none of whose passes leaves it with a result returns none. -/
theorem not_returns_of_invariant (P : σ → Prop)
    (hstep : ∀ s, P s → (∃ t, pass s = .again t ∧ P t) ∨ pass s = .crashes) (hs : P s) :
    ¬ Returns pass s t a := by
  rintro ⟨n, hn⟩
  induction n generalizing s with
  | zero => cases hn
  | succ n ih =>
    rcases hstep s hs with ⟨s', hs', hP⟩ | hcrash
    · rw [passes_of_again hs'] at hn
      exact ih hP hn
    · rw [passes_of_crashes hcrash] at hn
      cases hn

end YastCore.Loop
