import Mathlib.Data.List.Forall2
import Mathlib.Logic.Function.Basic
import Mathlib.Logic.Relator
import YastCore.Lib.Discipline

/-!
# Runs side by side

Two computations over different states mirror each other when from related states they end alike, with
related values or with the same fault, and leave related states. The rules follow the runs step by step.
-/

namespace YastCore

namespace Mirror

variable {ε σ τ α β γ δ : Type}

/-- What the ends of two runs have in common. -/
inductive Alike (R : σ → τ → Prop) (Q : α → β → Prop) : EStateM.Result ε σ α → EStateM.Result ε τ β → Prop where
  | ok {a : α} {b : β} {s : σ} {t : τ} (state : R s t) (value : Q a b) : Alike R Q (.ok a s) (.ok b t)
  | error {e : ε} {s : σ} {t : τ} (state : R s t) : Alike R Q (.error e s) (.error e t)

/-- The runs from these two states end alike. -/
def Ends (R : σ → τ → Prop) (Q : α → β → Prop) (s : σ) (t : τ) (x : EStateM ε σ α) (y : EStateM ε τ β) : Prop :=
  Alike R Q (x s) (y t)

/-- The runs end alike wherever they start side by side. -/
def Mirrors (R : σ → τ → Prop) (Q : α → β → Prop) (x : EStateM ε σ α) (y : EStateM ε τ β) : Prop :=
  ∀ s t, R s t → Ends R Q s t x y

section Rules

variable {R : σ → τ → Prop} {Q : α → β → Prop} {Q' : γ → δ → Prop} {s : σ} {t : τ} {x : EStateM ε σ α}
  {y : EStateM ε τ β} {f : α → EStateM ε σ γ} {g : β → EStateM ε τ δ}

lemma ends_pure {a : α} {b : β} (hst : R s t) (hab : Q a b) :
    Ends R Q s t (pure a : EStateM ε σ α) (pure b) :=
  .ok hst hab

lemma ends_throw {e : ε} (hst : R s t) : Ends R Q s t (throw e : EStateM ε σ α) (throw e) :=
  .error hst

lemma mirrors_pure {a : α} {b : β} (hab : Q a b) : Mirrors R Q (pure a : EStateM ε σ α) (pure b) :=
  fun _ _ hst => ends_pure hst hab

lemma mirrors_throw {e : ε} : Mirrors R Q (throw e : EStateM ε σ α) (throw e) :=
  fun _ _ hst => ends_throw hst

/-- One computation after the other. -/
lemma Ends.bind (h : Ends R Q s t x y) (h' : ∀ a b s' t', R s' t' → Q a b → Ends R Q' s' t' (f a) (g b)) :
    Ends R Q' s t (x >>= f) (y >>= g) := by
  unfold Ends at h
  cases hx : x s with
  | ok a s' =>
    cases hy : y t with
    | ok b t' =>
      rw [hx, hy] at h
      cases h with
      | ok hst hab =>
        have hrest := h' a b s' t' hst hab
        unfold Ends at hrest ⊢
        rwa [EState.bind_of_ok hx, EState.bind_of_ok hy]
    | error e t' =>
      rw [hx, hy] at h
      cases h
  | error e s' =>
    cases hy : y t with
    | ok b t' =>
      rw [hx, hy] at h
      cases h
    | error e' t' =>
      rw [hx, hy] at h
      cases h with
      | error hst =>
        unfold Ends
        rw [EState.bind_of_error hx, EState.bind_of_error hy]
        exact .error hst

lemma Mirrors.bind (h : Mirrors R Q x y) (h' : ∀ a b, Q a b → Mirrors R Q' (f a) (g b)) :
    Mirrors R Q' (x >>= f) (y >>= g) :=
  fun s t hst => (h s t hst).bind fun a b s' t' hst' hab => h' a b hab s' t' hst'

lemma ends_get {f : σ → EStateM ε σ γ} {g : τ → EStateM ε τ δ} (h : Ends R Q' s t (f s) (g t)) :
    Ends R Q' s t (get >>= f) (get >>= g) :=
  h

/-- A step that only changes the states. -/
lemma ends_modify {u : σ → σ} {v : τ → τ} {f : PUnit → EStateM ε σ γ} {g : PUnit → EStateM ε τ δ}
    (h : Ends R Q' (u s) (v t) (f ⟨⟩) (g ⟨⟩)) : Ends R Q' s t (modify u >>= f) (modify v >>= g) :=
  h

lemma mirrors_modify {u : σ → σ} {v : τ → τ} {f : PUnit → EStateM ε σ γ} {g : PUnit → EStateM ε τ δ}
    (huv : ∀ s t, R s t → R (u s) (v t)) (h : Mirrors R Q' (f ⟨⟩) (g ⟨⟩)) :
    Mirrors R Q' (modify u >>= f) (modify v >>= g) :=
  fun s t hst => ends_modify (h _ _ (huv s t hst))

/-- The same decision on either side. -/
lemma mirrors_ite {p q : Prop} [Decidable p] [Decidable q] {x' : EStateM ε σ α} {y' : EStateM ε τ β} (hpq : p ↔ q)
    (h : p → Mirrors R Q x y) (h' : ¬p → Mirrors R Q x' y') :
    Mirrors R Q (if p then x else x') (if q then y else y') := by
  by_cases hp : p
  · rw [if_pos hp, if_pos (hpq.mp hp)]
    exact h hp
  · rw [if_neg hp, if_neg (mt hpq.mpr hp)]
    exact h' hp

end Rules

/-! ### Lists and updates -/

/-- Related lists have related elements at the same positions. -/
lemma forall₂_getElem? {R : α → β → Prop} {l : List α} {l' : List β} (h : List.Forall₂ R l l') (k : Nat) :
    Option.Rel R l[k]? l'[k]? := by
  induction h generalizing k with
  | nil => exact .none
  | cons hab _ ih =>
    cases k with
    | zero => exact .some hab
    | succ k => exact ih k

/-- Where related places stand for each other one to one, an update at one of them meets no other. -/
lemma update_related [DecidableEq α] [DecidableEq β] {P : α → β → Prop} {Q : γ → δ → Prop}
    (hP : Relator.BiUnique P) {f : α → γ} {g : β → δ} (h : ∀ a b, P a b → Q (f a) (g b)) {a : α} {b : β}
    (hab : P a b) {c : γ} {d : δ} (hcd : Q c d) (a' : α) (b' : β) (h' : P a' b') :
    Q (Function.update f a c a') (Function.update g b d b') := by
  by_cases ha : a' = a
  · have hb : b' = b := by
      rw [ha] at h'
      exact hP.2 h' hab
    rw [ha, hb, Function.update_self, Function.update_self]
    exact hcd
  · have hb : b' ≠ b := by
      rintro rfl
      exact ha (hP.1 h' hab)
    rw [Function.update_of_ne ha, Function.update_of_ne hb]
    exact h a' b' h'

end Mirror

end YastCore
