import Mathlib.Tactic.Common

/-!
# Computations with a state and a fault

`Exec ε σ α` runs from a state of type `σ` to a result and a new state, or stops with a fault.
-/

namespace YastCore

abbrev Exec (ε σ : Type) (α : Type) := StateT σ (Except ε) α

namespace Exec

variable {ε σ α β : Type}

@[simp] lemma pure_apply (a : α) (s : σ) : (pure a : Exec ε σ α) s = .ok (a, s) := rfl

@[simp] lemma throw_apply (e : ε) (s : σ) : (throw e : Exec ε σ α) s = .error e := rfl

@[simp] lemma get_apply (s : σ) : (get : Exec ε σ σ) s = .ok (s, s) := rfl

@[simp] lemma set_apply (s s' : σ) : (set s' : Exec ε σ PUnit) s = .ok (⟨⟩, s') := rfl

@[simp] lemma modify_apply (f : σ → σ) (s : σ) :
    (modify f : Exec ε σ PUnit) s = .ok (⟨⟩, f s) := rfl

lemma bind_of_ok {x : Exec ε σ α} {f : α → Exec ε σ β} {s s' : σ} {a : α}
    (h : x s = .ok (a, s')) : (x >>= f) s = f a s' := by
  change (x s >>= fun p => f p.1 p.2) = f a s'
  rw [h]
  rfl

lemma bind_of_error {x : Exec ε σ α} {f : α → Exec ε σ β} {s : σ} {e : ε}
    (h : x s = .error e) : (x >>= f) s = .error e := by
  change (x s >>= fun p => f p.1 p.2) = .error e
  rw [h]
  rfl

lemma bind_ok_iff {x : Exec ε σ α} {f : α → Exec ε σ β} {s s'' : σ} {b : β} :
    (x >>= f) s = .ok (b, s'') ↔ ∃ a s', x s = .ok (a, s') ∧ f a s' = .ok (b, s'') := by
  cases h : x s with
  | error e => simp [bind_of_error h]
  | ok p =>
    obtain ⟨a, s'⟩ := p
    rw [bind_of_ok h]
    simp

lemma pure_ok_iff {a b : α} {s s' : σ} :
    (pure a : Exec ε σ α) s = .ok (b, s') ↔ a = b ∧ s = s' := by
  rw [pure_apply, Except.ok.injEq, Prod.mk.injEq]

lemma modify_ok_iff {f : σ → σ} {s s' : σ} {u : PUnit} :
    (modify f : Exec ε σ PUnit) s = .ok (u, s') ↔ f s = s' := by
  rw [modify_apply]
  simp

/-! ### What a computation can yield -/

/-- Every result that `x` has from any state has the property `P`. -/
def Yields (x : Exec ε σ α) (P : α → Prop) : Prop :=
  ∀ s a s', x s = .ok (a, s') → P a

variable {x : Exec ε σ α} {f : α → Exec ε σ β} {P P' : α → Prop} {Q : β → Prop}

lemma Yields.pure {a : α} (h : P a) : Yields (pure a : Exec ε σ α) P := by
  intro s b s' hb
  rw [pure_ok_iff] at hb
  rwa [← hb.1]

lemma Yields.throw (e : ε) : Yields (throw e : Exec ε σ α) P := by
  intro s a s' h
  simp at h

lemma Yields.bind (h : Yields x P) (h' : ∀ a, P a → Yields (f a) Q) : Yields (x >>= f) Q := by
  intro s b s' hb
  obtain ⟨a, s₁, ha, hb⟩ := bind_ok_iff.mp hb
  exact h' a (h s a s₁ ha) s₁ b s' hb

/-- What the first step yields does not matter. -/
lemma Yields.after (h : ∀ a, Yields (f a) Q) : Yields (x >>= f) Q := by
  intro s b s' hb
  obtain ⟨a, s₁, -, hb⟩ := bind_ok_iff.mp hb
  exact h a s₁ b s' hb

lemma Yields.mono (h : Yields x P) (hP : ∀ a, P a → P' a) : Yields x P' :=
  fun s a s' ha => hP a (h s a s' ha)

lemma Yields.ite {p : Prop} [Decidable p] {y : Exec ε σ α} (h : p → Yields x P)
    (h' : ¬ p → Yields y P) : Yields (if p then x else y) P := by
  by_cases hp : p
  · rw [if_pos hp]
    exact h hp
  · rw [if_neg hp]
    exact h' hp

end Exec

end YastCore
