import Mathlib.Data.List.Forall2
import Mathlib.Tactic.Common

/-!
# Lists compared side by side

Two lists are compared element by element as far as both go, up to the first pair that does not fit. A
comparison of elements may be undefined, and then so is the whole.
-/

namespace YastCore.Along

variable {α β : Type}

def along (fit : α → β → Option Bool) : List α → List β → Option Bool
  | x :: xs, y :: ys => do
    if ← fit x y then along fit xs ys else some false
  | _, _ => some true

/-- The elements of two lists of one length fit. -/
def Fills (fit : α → β → Option Bool) (xs : List α) (ys : List β) : Prop :=
  List.Forall₂ (fun x y => fit x y = some true) xs ys

variable {fit : α → β → Option Bool}

@[simp] lemma along_nil_left (ys : List β) : along fit [] ys = some true := by
  cases ys <;> rfl

@[simp] lemma along_nil_right (xs : List α) : along fit xs [] = some true := by
  cases xs <;> rfl

lemma along_cons (x : α) (xs : List α) (y : β) (ys : List β) :
    along fit (x :: xs) (y :: ys) = (fit x y).bind fun b => if b then along fit xs ys else some false := by
  rw [along, Option.bind_eq_bind]

lemma along_append_right (xs : List α) (ys zs : List β) :
    along fit xs (ys ++ zs) =
      (along fit xs ys).bind fun b => if b then along fit (xs.drop ys.length) zs else some false := by
  induction ys generalizing xs with
  | nil => simp
  | cons y ys ih =>
    cases xs with
    | nil => simp
    | cons x xs =>
      rw [List.cons_append, along_cons, along_cons, ih, List.length_cons, List.drop_succ_cons]
      cases fit x y with
      | none => rfl
      | some b => cases b <;> rfl

lemma along_take (xs : List α) (ys : List β) : along fit (xs.take ys.length) ys = along fit xs ys := by
  induction ys generalizing xs with
  | nil => simp
  | cons y ys ih =>
    cases xs with
    | nil => rfl
    | cons x xs => rw [List.length_cons, List.take_succ_cons, along_cons, along_cons, ih]

lemma along_eq_true_iff (xs : List α) (ys : List β) :
    along fit xs ys = some true ↔ ∀ p ∈ xs.zip ys, fit p.1 p.2 = some true := by
  induction xs generalizing ys with
  | nil => simp
  | cons x xs ih =>
    cases ys with
    | nil => simp
    | cons y ys =>
      rw [along_cons, List.zip_cons_cons, List.forall_mem_cons, ← ih]
      cases fit x y with
      | none => simp
      | some b => cases b <;> simp

lemma fills_iff (xs : List α) (ys : List β) :
    Fills fit xs ys ↔ xs.length = ys.length ∧ along fit xs ys = some true := by
  induction xs generalizing ys with
  | nil => cases ys <;> simp [Fills]
  | cons x xs ih =>
    cases ys with
    | nil => simp [Fills]
    | cons y ys =>
      have hrest := ih ys
      unfold Fills at hrest ⊢
      rw [List.forall₂_cons, hrest, along_cons, List.length_cons, List.length_cons, Nat.add_right_cancel_iff]
      cases fit x y with
      | none => simp
      | some b => cases b <;> simp

lemma fills_take_iff (xs : List α) (ys : List β) :
    Fills fit (xs.take ys.length) ys ↔ ys.length ≤ xs.length ∧ along fit xs ys = some true := by
  have hmin : min ys.length xs.length = ys.length ↔ ys.length ≤ xs.length := by omega
  rw [fills_iff, along_take, List.length_take, hmin]

end YastCore.Along
