import Mathlib.Order.Basic
import Mathlib.Tactic.Common

/-!
# Comparisons given by prefix-free keys

A comparison of structured values is read off the lexicographic order of lists of integers. A key is
prefix-free with respect to a comparison when what follows two keys is compared only after the keys
have been found equal; this is what lets the keys of parts be put one after the other.
-/

namespace YastCore.KeyOrder

open Ordering

/-- The lexicographic order of keys. -/
abbrev lex (r s : List Int) : Ordering := compare r s

/-- On `a` and `b` the order of the keys is `o`, and what follows the keys decides only when they
are equal. -/
def KeyAt {α : Type} (key : α → List Int) (o : Ordering) (a b : α) : Prop :=
  ∀ r s, lex (key a ++ r) (key b ++ s) = o.then (lex r s)

section Keys

variable {α : Type} {key : α → List Int} {o : Ordering} {a b : α}

lemma lex_cons (x y : Int) (r s : List Int) :
    lex (x :: r) (y :: s) = (compare x y).then (lex r s) :=
  List.compare_cons_cons

lemma lex_cons_self (x : Int) (r s : List Int) : lex (x :: r) (x :: s) = lex r s := by
  rw [lex_cons, Int.compare_eq_eq.mpr rfl, eq_then]

lemma lex_cons_of_lt {x y : Int} (h : x < y) (r s : List Int) : lex (x :: r) (y :: s) = .lt := by
  rw [lex_cons, Int.compare_eq_lt.mpr h, lt_then]

lemma lex_cons_of_gt {x y : Int} (h : y < x) (r s : List Int) : lex (x :: r) (y :: s) = .gt := by
  rw [lex_cons, Int.compare_eq_gt.mpr h, gt_then]

lemma KeyAt.lex_eq (h : KeyAt key o a b) : lex (key a) (key b) = o := by
  have h' := h [] []
  rw [List.append_nil, List.append_nil] at h'
  rw [h']
  exact then_eq

/-! ### Keys of lists -/

/-- Each element is announced by a 1; a 0 ends the list, so a proper prefix is less. -/
def listKey (key : α → List Int) : List α → List Int
  | [] => [0]
  | a :: l => 1 :: (key a ++ listKey key l)

lemma listKey_nil_cons (b : α) (m : List α) : KeyAt (listKey key) .lt [] (b :: m) := by
  intro r s
  simp only [listKey, List.cons_append, List.nil_append]
  exact lex_cons_of_lt (by decide) _ _

lemma listKey_cons_nil (a : α) (l : List α) : KeyAt (listKey key) .gt (a :: l) [] := by
  intro r s
  simp only [listKey, List.cons_append, List.nil_append]
  exact lex_cons_of_gt (by decide) _ _

lemma listKey_nil : KeyAt (listKey key) .eq ([] : List α) [] := by
  intro r s
  simp only [listKey, List.cons_append, List.nil_append]
  exact lex_cons_self 0 r s

lemma listKey_cons {l m : List α} {o' : Ordering} (h : KeyAt key o a b)
    (ht : KeyAt (listKey key) o' l m) : KeyAt (listKey key) (o.then o') (a :: l) (b :: m) := by
  intro r s
  simp only [listKey, List.cons_append, List.append_assoc]
  rw [lex_cons_self, h, ht, then_assoc]

/-- Keys of elements compared by `cmp` give the key order of lists compared by `cmp`. -/
lemma listKey_keyAt {cmp : α → α → Ordering} (h : ∀ a b, KeyAt key (cmp a b) a b) (l m : List α) :
    KeyAt (listKey key) (List.compareLex cmp l m) l m := by
  induction l generalizing m with
  | nil =>
    cases m with
    | nil => exact listKey_nil
    | cons b m => exact listKey_nil_cons b m
  | cons a l ih =>
    cases m with
    | nil => exact listKey_cons_nil a l
    | cons b m =>
      rw [List.compareLex_cons_cons]
      exact listKey_cons (h a b) (ih m)

/-- Where the keys of the elements determine what `f` sees of them, so do the keys of lists. -/
lemma listKey_determines {β : Type} {f : α → β} {l m : List α}
    (h : ∀ a ∈ l, ∀ b ∈ m, ∀ r s, key a ++ r = key b ++ s → f a = f b ∧ r = s) {r s : List Int}
    (heq : listKey key l ++ r = listKey key m ++ s) : l.map f = m.map f ∧ r = s := by
  induction l generalizing m with
  | nil =>
    cases m with
    | nil => simpa [listKey] using heq
    | cons b m => simp [listKey] at heq
  | cons a l ih =>
    cases m with
    | nil => simp [listKey] at heq
    | cons b m =>
      simp only [listKey, List.cons_append, List.append_assoc, List.cons.injEq, true_and] at heq
      obtain ⟨hab, heq⟩ := h a List.mem_cons_self b List.mem_cons_self _ _ heq
      obtain ⟨hlm, hrs⟩ := ih (fun a ha b hb =>
        h a (List.mem_cons_of_mem _ ha) b (List.mem_cons_of_mem _ hb)) heq
      exact ⟨by rw [List.map_cons, List.map_cons, hab, hlm], hrs⟩

end Keys

/-- A single integer is its own key. -/
lemma keyAt_singleton {α : Type} (f : α → Int) (a b : α) :
    KeyAt (fun a => [f a]) (compare (f a) (f b)) a b := by
  intro r s
  exact lex_cons (f a) (f b) r s

/-! ### The laws that a key order has -/

lemma lex_swap (r s : List Int) : lex s r = (lex r s).swap :=
  Std.OrientedCmp.eq_swap

lemma lex_eq_iff (r s : List Int) : lex r s = .eq ↔ r = s :=
  Std.compare_eq_iff_eq

lemma lex_isLE_trans {r s t : List Int} (h : (lex r s).isLE) (h' : (lex s t).isLE) :
    (lex r t).isLE :=
  Std.TransCmp.isLE_trans h h'

lemma lex_lt_trans {r s t : List Int} (h : lex r s = .lt) (h' : lex s t = .lt) : lex r t = .lt :=
  Std.TransCmp.lt_trans h h'

end YastCore.KeyOrder
