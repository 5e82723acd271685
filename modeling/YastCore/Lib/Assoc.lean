import Mathlib.Data.List.Basic
import Mathlib.Tactic.Common

/-!
# Maps as lists of pairs

`std::map` as the list of its pairs in the order of the keys. What is found under a key does not depend
on the order.
-/

namespace YastCore.Assoc

variable {α β : Type} [DecidableEq α] (less : α → α → Bool)

/-- The value of the first pair with the key. -/
def find (k : α) : List (α × β) → Option β
  | [] => none
  | e :: m => if e.1 = k then some e.2 else find k m

/-- `m[k] = v` -/
def insert (k : α) (v : β) : List (α × β) → List (α × β)
  | [] => [(k, v)]
  | e :: m =>
    if e.1 = k then (k, v) :: m
    else if less k e.1 then (k, v) :: e :: m
    else e :: insert k v m

/-- `m.erase (k)` -/
def erase (k : α) (m : List (α × β)) : List (α × β) := m.filter fun e => e.1 ≠ k

lemma find_insert_self (k : α) (v : β) (m : List (α × β)) : find k (insert less k v m) = some v := by
  induction m with
  | nil => simp [insert, find]
  | cons e m ih =>
    unfold insert
    split
    · simp [find]
    next hne =>
      split
      · simp [find]
      · rw [find, if_neg hne, ih]

lemma find_insert_of_ne {k k' : α} (h : k ≠ k') (v : β) (m : List (α × β)) :
    find k' (insert less k v m) = find k' m := by
  induction m with
  | nil => simp [insert, find, h]
  | cons e m ih =>
    unfold insert
    split
    next heq =>
      have hne : e.1 ≠ k' := heq ▸ h
      rw [find, find, if_neg h, if_neg hne]
    · split
      · rw [find, if_neg h]
      · rw [find, find, ih]

lemma find_erase_self (k : α) (m : List (α × β)) : find k (erase k m) = none := by
  induction m with
  | nil => rfl
  | cons e m ih =>
    unfold erase at ih ⊢
    by_cases he : e.1 = k
    · rw [List.filter_cons_of_neg (by simp [he]), ih]
    · rw [List.filter_cons_of_pos (by simp [he]), find, if_neg he, ih]

lemma find_erase_of_ne {k k' : α} (h : k ≠ k') (m : List (α × β)) : find k' (erase k m) = find k' m := by
  induction m with
  | nil => rfl
  | cons e m ih =>
    unfold erase at ih ⊢
    by_cases he : e.1 = k
    · have hne : e.1 ≠ k' := he ▸ h
      rw [List.filter_cons_of_neg (by simp [he]), find, if_neg hne, ih]
    · rw [List.filter_cons_of_pos (by simp [he]), find, find, ih]

end YastCore.Assoc
