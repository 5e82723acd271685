import Mathlib.Data.List.Pairwise
import YastCore.Lib.Distinct

/-!
# First and last occurrences

A list with repetitions keeps each element where it stands first or where it stands last. The two
are the same list exactly if the elements begin and end in one order.
-/

namespace Distinct

variable {α : Type} [DecidableEq α]

/-- Each element once, where it stands last. -/
def lastOccurrences (l : List α) : List α := (firstOccurrences id l.reverse).reverse

def pushNew (kept : List α) (e : α) : List α := if e ∈ kept then kept else e :: kept

/-- Of two elements, the one that begins earlier ends earlier. -/
def BeginEndAlike (l : List α) : Prop :=
  ∀ a ∈ l, ∀ b ∈ l, l.idxOf a < l.idxOf b → l.reverse.idxOf b < l.reverse.idxOf a

instance (l : List α) : Decidable (BeginEndAlike l) := inferInstanceAs (Decidable (∀ a ∈ l, ∀ b ∈ l, _ → _))

lemma mem_firstOccurrences (l : List α) {a : α} : a ∈ firstOccurrences id l ↔ a ∈ l := by
  have hmem : a ∈ (firstOccurrences id l).map id ↔ a ∈ l.map id := mem_keys_firstOccurrences l
  rwa [List.map_id, List.map_id] at hmem

lemma nodup_firstOccurrences_id (l : List α) : (firstOccurrences id l).Nodup := by
  have hnodup : ((firstOccurrences id l).map id).Nodup := nodup_firstOccurrences l
  rwa [List.map_id] at hnodup

/-- The elements stand in the order of their first occurrences. -/
lemma pairwise_firstOccurrences (l : List α) :
    (firstOccurrences id l).Pairwise fun a b => l.idxOf a < l.idxOf b := by
  induction l using List.reverseRecOn with
  | nil => exact .nil
  | append_singleton l e ih =>
    have hold : (firstOccurrences id l).Pairwise fun a b => (l ++ [e]).idxOf a < (l ++ [e]).idxOf b := by
      refine ih.imp_of_mem fun {a b} ha hb h => ?_
      rwa [List.idxOf_append_of_mem ((mem_firstOccurrences l).mp ha),
        List.idxOf_append_of_mem ((mem_firstOccurrences l).mp hb)]
    rw [firstOccurrences_append, List.foldl_cons, List.foldl_nil]
    by_cases he : e ∈ l
    · rw [addNew_of_mem (by simpa using (mem_firstOccurrences l).mpr he)]
      exact hold
    · rw [addNew_of_not_mem (by simpa using fun h => he ((mem_firstOccurrences l).mp h))]
      refine List.pairwise_append.mpr ⟨hold, List.pairwise_singleton _ _, ?_⟩
      intro a ha b hb
      obtain rfl := List.mem_singleton.mp hb
      have ha' := (mem_firstOccurrences l).mp ha
      rw [List.idxOf_append_of_mem ha', List.idxOf_append_of_notMem he, List.idxOf_cons_self]
      exact Nat.lt_of_lt_of_le (List.idxOf_lt_length_of_mem ha') (Nat.le_add_right _ _)

lemma mem_lastOccurrences (l : List α) {a : α} : a ∈ lastOccurrences l ↔ a ∈ l := by
  rw [lastOccurrences, List.mem_reverse, mem_firstOccurrences, List.mem_reverse]

lemma pairwise_lastOccurrences (l : List α) :
    (lastOccurrences l).Pairwise fun a b => l.reverse.idxOf b < l.reverse.idxOf a :=
  List.pairwise_reverse.mpr (pairwise_firstOccurrences l.reverse)

theorem lastOccurrences_eq_iff (l : List α) : lastOccurrences l = firstOccurrences id l ↔ BeginEndAlike l := by
  constructor
  · intro heq a ha b hb hlt
    let inOrder (a b : α) : Prop := l.idxOf a < l.idxOf b ∧ l.reverse.idxOf b < l.reverse.idxOf a
    have hboth : (firstOccurrences id l).Pairwise fun a b => inOrder a b ∨ inOrder b a :=
      ((pairwise_firstOccurrences l).and (heq ▸ pairwise_lastOccurrences l)).imp Or.inl
    have hsym : Std.Symm fun a b => inOrder a b ∨ inOrder b a := ⟨fun _ _ h => h.symm⟩
    have hne : a ≠ b := fun hab => by simp [hab] at hlt
    rcases hboth.forall ((mem_firstOccurrences l).mpr ha) ((mem_firstOccurrences l).mpr hb) hne with hab | hba
    · exact hab.2
    · exact absurd hlt (Nat.lt_asymm hba.1)
  · intro halike
    have hfirst : (firstOccurrences id l).Pairwise fun a b => l.reverse.idxOf b < l.reverse.idxOf a :=
      (pairwise_firstOccurrences l).imp_of_mem fun {a b} ha hb h =>
        halike a ((mem_firstOccurrences l).mp ha) b ((mem_firstOccurrences l).mp hb) h
    have hperm : (lastOccurrences l).Perm (firstOccurrences id l) := by
      refine (List.perm_ext_iff_of_nodup ?_ (nodup_firstOccurrences_id l)).mpr fun a => ?_
      · exact List.nodup_reverse.mpr (nodup_firstOccurrences_id _)
      · rw [mem_lastOccurrences, mem_firstOccurrences]
    exact hperm.eq_of_pairwise (fun a b _ _ hab hba => absurd hba (Nat.lt_asymm hab))
      (pairwise_lastOccurrences l) hfirst

/-! ### Searching and renaming -/

lemma find?_foldl_addNew (p : α → Bool) (l kept : List α) :
    (l.foldl (addNew id) kept).find? p = (kept ++ l).find? p := by
  induction l generalizing kept with
  | nil => simp
  | cons e l ih =>
    rw [List.foldl_cons, ih]
    by_cases he : e ∈ kept
    · rw [addNew_of_mem (by simpa using he), List.find?_append, List.find?_append, List.find?_cons]
      cases hp : p e with
      | false => rfl
      | true =>
        have hsome : (kept.find? p).isSome = true := List.find?_isSome.mpr ⟨e, he, hp⟩
        obtain ⟨x, hx⟩ := Option.isSome_iff_exists.mp hsome
        rw [hx]
        rfl
    · rw [addNew_of_not_mem (by simpa using he)]
      simp

/-- Repetitions make no difference to a search from the front. -/
lemma find?_firstOccurrences (p : α → Bool) (l : List α) : (firstOccurrences id l).find? p = l.find? p :=
  find?_foldl_addNew p l []

/-- Renaming the elements apart keeps what is the same. -/
lemma firstOccurrences_map {β : Type} [DecidableEq β] {f : α → β} (hf : Function.Injective f) (l : List α) :
    firstOccurrences id (l.map f) = (firstOccurrences id l).map f := by
  induction l using List.reverseRecOn with
  | nil => rfl
  | append_singleton l e ih =>
    rw [List.map_append, firstOccurrences_append, firstOccurrences_append, ih]
    simp only [List.map_singleton, List.foldl_cons, List.foldl_nil]
    have hmem : id (f e) ∈ ((firstOccurrences id l).map f).map id ↔ id e ∈ (firstOccurrences id l).map id := by
      rw [List.map_id, List.map_id]
      exact List.mem_map_of_injective hf
    by_cases he : id e ∈ (firstOccurrences id l).map id
    · rw [addNew_of_mem he, addNew_of_mem (hmem.mpr he)]
    · rw [addNew_of_not_mem he, addNew_of_not_mem fun h => he (hmem.mp h), List.map_append, List.map_singleton]

lemma lastOccurrences_map {β : Type} [DecidableEq β] {f : α → β} (hf : Function.Injective f) (l : List α) :
    lastOccurrences (l.map f) = (lastOccurrences l).map f := by
  rw [lastOccurrences, lastOccurrences, ← List.map_reverse, firstOccurrences_map hf, List.map_reverse]

/-- Pushing each new element to the front, from the back of a list, keeps the last occurrences. -/
lemma foldl_pushNew (l : List α) : l.reverse.foldl pushNew [] = lastOccurrences l := by
  have hstep (back kept : List α) :
      back.foldl pushNew kept = (back.foldl (addNew id) kept.reverse).reverse := by
    induction back generalizing kept with
    | nil => simp
    | cons e back ih =>
      rw [List.foldl_cons, List.foldl_cons, ih]
      by_cases he : e ∈ kept
      · rw [pushNew, if_pos he, addNew_of_mem (by simpa using he)]
      · rw [pushNew, if_neg he, addNew_of_not_mem (by simpa using he), List.reverse_cons]
  exact hstep l.reverse []

end Distinct
