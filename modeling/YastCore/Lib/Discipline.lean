import Mathlib.Tactic.Common

/-!
# Disciplines

`EStateM ε σ` keeps the state in which a fault occurs. A discipline fixes what every part of a run
respects: an invariant of the states between the parts, a relation between the states before and
after a part, and what is left of the invariant where a fault stops a part halfway.
-/

namespace YastCore

/-! ### Equations of computations -/

namespace EState

variable {ε σ α β : Type}

lemma bind_apply (x : EStateM ε σ α) (f : α → EStateM ε σ β) (s : σ) :
    (x >>= f) s =
      match x s with
      | .ok a s' => f a s'
      | .error e s' => .error e s' :=
  rfl

lemma bind_of_ok {x : EStateM ε σ α} {f : α → EStateM ε σ β} {s s' : σ} {a : α}
    (h : x s = .ok a s') : (x >>= f) s = f a s' := by
  rw [bind_apply, h]

lemma bind_of_error {x : EStateM ε σ α} {f : α → EStateM ε σ β} {s s' : σ} {e : ε}
    (h : x s = .error e s') : (x >>= f) s = .error e s' := by
  rw [bind_apply, h]

lemma bind_ok_iff {x : EStateM ε σ α} {f : α → EStateM ε σ β} {s s'' : σ} {b : β} :
    (x >>= f) s = .ok b s'' ↔ ∃ a s', x s = .ok a s' ∧ f a s' = .ok b s'' := by
  rw [bind_apply]
  cases h : x s with
  | error e s' => simp
  | ok a s' => simp

@[simp] lemma pure_apply (a : α) (s : σ) : (pure a : EStateM ε σ α) s = .ok a s := rfl

@[simp] lemma throw_apply (e : ε) (s : σ) : (throw e : EStateM ε σ α) s = .error e s := rfl

@[simp] lemma get_bind (f : σ → EStateM ε σ β) (s : σ) : (get >>= f) s = f s s := rfl

@[simp] lemma modify_bind (g : σ → σ) (f : PUnit → EStateM ε σ β) (s : σ) :
    (modify g >>= f) s = f ⟨⟩ (g s) :=
  rfl

end EState

/-! ### Disciplines -/

structure Discipline (σ : Type) where
  inv : σ → Prop
  le : σ → σ → Prop
  halted : σ → Prop
  refl : ∀ s, le s s
  trans : ∀ {s s' s''}, le s s' → le s' s'' → le s s''
  halted_of_inv : ∀ {s}, inv s → halted s

namespace Discipline

variable {ε σ α β : Type} {D : Discipline σ} {s : σ} {P : σ → α → Prop} {Q : σ → β → Prop}

/-- The run of `x` from `s` respects the discipline, with `P` of what it returns. -/
def Runs (D : Discipline σ) (s : σ) (x : EStateM ε σ α) (P : σ → α → Prop) : Prop :=
  match x s with
  | .ok a s' => D.inv s' ∧ D.le s s' ∧ P s' a
  | .error _ s' => D.halted s'

/-- A computation respects the discipline wherever it starts. -/
def Keeps (D : Discipline σ) (x : EStateM ε σ α) (P : σ → α → Prop) : Prop :=
  ∀ s, D.inv s → D.Runs s x P

lemma runs_pure {a : α} (hs : D.inv s) (h : P s a) : D.Runs s (pure a : EStateM ε σ α) P :=
  ⟨hs, D.refl s, h⟩

lemma runs_throw {e : ε} (hs : D.inv s) : D.Runs s (throw e : EStateM ε σ α) P :=
  D.halted_of_inv hs

lemma runs_get {f : σ → EStateM ε σ α} (h : D.Runs s (f s) P) : D.Runs s (get >>= f) P := h

lemma Runs.of_ok {x : EStateM ε σ α} {s' : σ} {a : α} (h : D.Runs s x P) (hx : x s = .ok a s') :
    D.inv s' ∧ D.le s s' ∧ P s' a := by
  unfold Runs at h
  rwa [hx] at h

lemma Runs.of_error {x : EStateM ε σ α} {s' : σ} {e : ε} (h : D.Runs s x P)
    (hx : x s = .error e s') : D.halted s' := by
  unfold Runs at h
  rwa [hx] at h

lemma runs_of {x : EStateM ε σ α}
    (hok : ∀ a s', x s = .ok a s' → D.inv s' ∧ D.le s s' ∧ P s' a)
    (herror : ∀ e s', x s = .error e s' → D.halted s') : D.Runs s x P := by
  unfold Runs
  split
  next a s' hx => exact hok a s' hx
  next e s' hx => exact herror e s' hx

lemma runs_bind {x : EStateM ε σ α} {f : α → EStateM ε σ β} (h : D.Runs s x P)
    (h' : ∀ a s', D.inv s' → D.le s s' → P s' a → D.Runs s' (f a) Q) :
    D.Runs s (x >>= f) Q := by
  cases hx : x s with
  | error e s' =>
    have hrun : (x >>= f) s = .error e s' := by rw [EState.bind_apply, hx]
    refine runs_of (fun b s'' hb => ?_) fun e' s'' he => ?_
    · rw [hrun] at hb
      cases hb
    · rw [hrun] at he
      cases he
      exact h.of_error hx
  | ok a s' =>
    have hrun : (x >>= f) s = f a s' := EState.bind_of_ok hx
    obtain ⟨hinv, hle, ha⟩ := h.of_ok hx
    have hrest := h' a s' hinv hle ha
    refine runs_of (fun b s'' hb => ?_) fun e s'' he => ?_
    · rw [hrun] at hb
      obtain ⟨hinv', hle', hb⟩ := hrest.of_ok hb
      exact ⟨hinv', D.trans hle hle', hb⟩
    · rw [hrun] at he
      exact hrest.of_error he

/-- A run that goes on as another one from a state further on. -/
lemma runs_reach {x y : EStateM ε σ α} {t : σ} (hx : x s = y t) (hle : D.le s t)
    (h : D.Runs t y P) : D.Runs s x P := by
  refine runs_of (fun a s' hrun => ?_) fun e s' hrun => ?_
  · rw [hx] at hrun
    obtain ⟨hinv, hle', ha⟩ := h.of_ok hrun
    exact ⟨hinv, D.trans hle hle', ha⟩
  · rw [hx] at hrun
    exact h.of_error hrun

/-- A step that only changes the state. -/
lemma runs_modify {f : σ → σ} {g : PUnit → EStateM ε σ α} (hle : D.le s (f s))
    (h : D.Runs (f s) (g ⟨⟩) P) : D.Runs s (modify f >>= g) P := by
  have hx : (modify f >>= g) s = g ⟨⟩ (f s) := rfl
  exact runs_reach hx hle h

lemma Runs.mono {P' : σ → α → Prop} {x : EStateM ε σ α} (h : D.Runs s x P)
    (hP : ∀ s' a, D.inv s' → D.le s s' → P s' a → P' s' a) : D.Runs s x P' := by
  refine runs_of (fun a s' hrun => ?_) fun e s' hrun => h.of_error hrun
  obtain ⟨hinv, hle, ha⟩ := h.of_ok hrun
  exact ⟨hinv, hle, hP s' a hinv hle ha⟩

end Discipline

end YastCore
