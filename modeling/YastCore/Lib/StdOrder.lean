import Mathlib.Data.List.Basic
import Mathlib.Order.Defs.Unbundled
import Mathlib.Tactic.Common

/-!
# The ordered algorithms of the standard library

`std::set`, `std::sort` and `std::binary_search` over a comparator that need not return. What they
promise holds for a comparator that decides a strict weak order on the range they are given.
-/

namespace StdOrder

variable {α : Type}

/-- A functor such as `std::less`; `none` where the call does not return. -/
abbrev Comparator (α : Type) := α → α → Option Bool

/-- On the range the comparator decides `lt`. -/
def Decides (less : Comparator α) (lt : α → α → Prop) [DecidableRel lt] (l : List α) : Prop :=
  ∀ a ∈ l, ∀ b ∈ l, less a b = some (decide (lt a b))

/-- The value is compared with each element of the range, either way round. -/
def DecidesAt (less : Comparator α) (lt : α → α → Prop) [DecidableRel lt] (l : List α) (v : α) : Prop :=
  ∀ a ∈ l, less a v = some (decide (lt a v)) ∧ less v a = some (decide (lt v a))

def Equivalent (lt : α → α → Prop) (a b : α) : Prop := ¬lt a b ∧ ¬lt b a

instance (lt : α → α → Prop) [DecidableRel lt] : DecidableRel (Equivalent lt) :=
  fun a b => inferInstanceAs (Decidable (¬lt a b ∧ ¬lt b a))

structure StdLib (α : Type) where
  /-- The elements of the set that is built from a range, in its order. -/
  set : Comparator α → List α → Option (List α)
  sort : Comparator α → List α → Option (List α)
  binarySearch : Comparator α → List α → α → Option Bool
  set_spec : ∀ {less : Comparator α} {lt : α → α → Prop} [DecidableRel lt] [IsStrictWeakOrder α lt]
    {l : List α}, Decides less lt l → ∃ r, set less l = some r ∧ r.Pairwise lt ∧ r ⊆ l ∧
      ∀ a ∈ l, ∃ b ∈ r, Equivalent lt a b
  sort_spec : ∀ {less : Comparator α} {lt : α → α → Prop} [DecidableRel lt] [IsStrictWeakOrder α lt]
    {l : List α}, Decides less lt l → ∃ r, sort less l = some r ∧ r.Perm l ∧ r.Pairwise fun a b => ¬lt b a
  binarySearch_spec : ∀ {less : Comparator α} {lt : α → α → Prop} [DecidableRel lt]
    [IsStrictWeakOrder α lt] {l : List α} {v : α}, DecidesAt less lt l v →
      (l.Pairwise fun a b => ¬lt b a) →
      binarySearch less l v = some (decide (∃ a ∈ l, Equivalent lt a v))

/-! ### Strictly increasing ranges -/

lemma Equivalent.symm {lt : α → α → Prop} {a b : α} (h : Equivalent lt a b) : Equivalent lt b a :=
  ⟨h.2, h.1⟩

lemma eq_of_equivalent {lt : α → α → Prop} {r : List α} (hr : r.Pairwise lt) {a b : α} (ha : a ∈ r)
    (hb : b ∈ r) (h : Equivalent lt a b) : a = b := by
  induction r with
  | nil => simp at ha
  | cons c r ih =>
    rw [List.pairwise_cons] at hr
    rcases List.mem_cons.mp ha with rfl | ha'
    · rcases List.mem_cons.mp hb with rfl | hb'
      · rfl
      · exact absurd (hr.1 b hb') h.1
    · rcases List.mem_cons.mp hb with rfl | hb'
      · exact absurd (hr.1 a ha') h.2
      · exact ih hr.2 ha' hb'

section Increasing

variable {lt : α → α → Prop} [IsStrictWeakOrder α lt]

lemma lt_trans_of {a b c : α} (hab : lt a b) (hbc : lt b c) : lt a c := IsTrans.trans a b c hab hbc

lemma lt_irrefl_of (a : α) : ¬lt a a := Std.Irrefl.irrefl a

lemma nodup_of_pairwise {r : List α} (hr : r.Pairwise lt) : r.Nodup := by
  refine hr.imp ?_
  rintro a b hab rfl
  exact lt_irrefl_of a hab

/-- The set has an element equivalent to a value when the range has one. -/
lemma exists_equivalent_iff {l r : List α} (hsub : r ⊆ l) (hequiv : ∀ a ∈ l, ∃ b ∈ r, Equivalent lt a b)
    (v : α) : (∃ a ∈ r, Equivalent lt a v) ↔ ∃ a ∈ l, Equivalent lt a v := by
  constructor
  · rintro ⟨a, ha, hav⟩
    exact ⟨a, hsub ha, hav⟩
  · rintro ⟨a, ha, hav⟩
    obtain ⟨b, hb, hab⟩ := hequiv a ha
    exact ⟨b, hb, IsStrictWeakOrder.incomp_trans b a v hab.symm hav⟩

/-- A strictly increasing range is the set that is built from it. -/
theorem set_of_pairwise [DecidableRel lt] (lib : StdLib α) {less : Comparator α} {r : List α}
    (hdec : Decides less lt r) (hr : r.Pairwise lt) : lib.set less r = some r := by
  obtain ⟨s, hs, hslt, hsub, hequiv⟩ := lib.set_spec hdec
  have hmem : ∀ a, a ∈ s ↔ a ∈ r := by
    intro a
    constructor
    · exact fun ha => hsub ha
    · intro ha
      obtain ⟨b, hb, hab⟩ := hequiv a ha
      rw [eq_of_equivalent hr ha (hsub hb) hab]
      exact hb
  have hperm : s.Perm r :=
    (List.perm_ext_iff_of_nodup (nodup_of_pairwise hslt) (nodup_of_pairwise hr)).mpr hmem
  have heq : s = r := by
    refine hperm.eq_of_pairwise (fun a b _ _ hab hba => ?_) hslt hr
    exact absurd (lt_trans_of hab hba) (lt_irrefl_of a)
  rw [hs, heq]

end Increasing

/-! ### A library that asks first -/

section Insertion

variable (p : α → α → Bool)

/-- Insertion behind the elements that are not greater. -/
def insertSorted (a : α) : List α → List α
  | [] => [a]
  | b :: l => if p a b then a :: b :: l else b :: insertSorted a l

/-- Insertion unless there is an equivalent element. -/
def insertSet (a : α) : List α → List α
  | [] => [a]
  | b :: l => if p a b then a :: b :: l else if p b a then b :: insertSet a l else b :: l

variable {p}

lemma insertSorted_perm (a : α) (l : List α) : (insertSorted p a l).Perm (a :: l) := by
  induction l with
  | nil => exact List.Perm.refl _
  | cons b l ih =>
    rw [insertSorted]
    split
    · exact List.Perm.refl _
    · exact (ih.cons b).trans (List.Perm.swap a b l)

lemma insertSet_subset (a : α) (l : List α) : insertSet p a l ⊆ a :: l := by
  induction l with
  | nil => exact List.Subset.refl _
  | cons b l ih =>
    rw [insertSet]
    split
    · exact List.Subset.refl _
    · split
      · intro c hc
        rcases List.mem_cons.mp hc with rfl | hc
        · simp
        · rcases List.mem_cons.mp (ih hc) with rfl | hc <;> simp [*]
      · exact List.subset_cons_self a (b :: l)

lemma subset_insertSet (a : α) (l : List α) : l ⊆ insertSet p a l := by
  induction l with
  | nil => exact List.nil_subset _
  | cons b l ih =>
    rw [insertSet]
    split
    · exact List.subset_cons_self a (b :: l)
    · split
      · exact List.cons_subset_cons b ih
      · exact List.Subset.refl _

variable {lt : α → α → Prop} [DecidableRel lt] [IsStrictWeakOrder α lt]

lemma insertSorted_pairwise {a : α} {l : List α} (hp : ∀ b ∈ l, p a b = decide (lt a b))
    (h : l.Pairwise fun a b => ¬lt b a) : (insertSorted p a l).Pairwise fun a b => ¬lt b a := by
  induction l with
  | nil => exact List.pairwise_singleton _ _
  | cons b l ih =>
    have hcons := List.pairwise_cons.mp h
    rw [insertSorted, hp b List.mem_cons_self]
    by_cases hab : lt a b
    · rw [if_pos (decide_eq_true hab)]
      refine List.pairwise_cons.mpr ⟨fun c hc hca => ?_, h⟩
      rcases List.mem_cons.mp hc with rfl | hc
      · exact lt_irrefl_of a (lt_trans_of hab hca)
      · exact hcons.1 c hc (lt_trans_of hca hab)
    · rw [if_neg (by simpa using hab)]
      refine List.pairwise_cons.mpr ⟨fun c hc => ?_, ih (fun c hc => hp c (List.mem_cons_of_mem b hc)) hcons.2⟩
      rcases List.mem_cons.mp ((insertSorted_perm a l).mem_iff.mp hc) with rfl | hc
      · exact hab
      · exact hcons.1 c hc

lemma insertSet_pairwise {a : α} {l : List α}
    (hp : ∀ b ∈ l, p a b = decide (lt a b) ∧ p b a = decide (lt b a)) (h : l.Pairwise lt) :
    (insertSet p a l).Pairwise lt := by
  induction l with
  | nil => exact List.pairwise_singleton _ _
  | cons b l ih =>
    have hcons := List.pairwise_cons.mp h
    rw [insertSet, (hp b List.mem_cons_self).1, (hp b List.mem_cons_self).2]
    by_cases hab : lt a b
    · rw [if_pos (decide_eq_true hab)]
      refine List.pairwise_cons.mpr ⟨fun c hc => ?_, h⟩
      rcases List.mem_cons.mp hc with rfl | hc
      · exact hab
      · exact lt_trans_of hab (hcons.1 c hc)
    · rw [if_neg (by simpa using hab)]
      by_cases hba : lt b a
      · rw [if_pos (decide_eq_true hba)]
        refine List.pairwise_cons.mpr ⟨fun c hc => ?_, ih (fun c hc => hp c (List.mem_cons_of_mem b hc)) hcons.2⟩
        rcases List.mem_cons.mp (insertSet_subset a l hc) with rfl | hc
        · exact hba
        · exact hcons.1 c hc
      · rw [if_neg (by simpa using hba)]
        exact h

lemma insertSet_equivalent {a : α} {l : List α}
    (hp : ∀ b ∈ l, p a b = decide (lt a b) ∧ p b a = decide (lt b a)) :
    ∃ b ∈ insertSet p a l, Equivalent lt a b := by
  have hself : Equivalent lt a a := ⟨lt_irrefl_of a, lt_irrefl_of a⟩
  induction l with
  | nil => exact ⟨a, List.mem_cons_self, hself⟩
  | cons b l ih =>
    rw [insertSet, (hp b List.mem_cons_self).1, (hp b List.mem_cons_self).2]
    by_cases hab : lt a b
    · rw [if_pos (decide_eq_true hab)]
      exact ⟨a, List.mem_cons_self, hself⟩
    · rw [if_neg (by simpa using hab)]
      by_cases hba : lt b a
      · obtain ⟨c, hc, hac⟩ := ih fun c hc => hp c (List.mem_cons_of_mem b hc)
        rw [if_pos (decide_eq_true hba)]
        exact ⟨c, List.mem_cons_of_mem b hc, hac⟩
      · rw [if_neg (by simpa using hba)]
        exact ⟨b, List.mem_cons_self, hab, hba⟩

end Insertion

section Cautious

def answersAll (less : Comparator α) (l : List α) : Bool := l.all fun a => l.all fun b => (less a b).isSome

def answersAt (less : Comparator α) (l : List α) (v : α) : Bool :=
  l.all fun a => (less a v).isSome && (less v a).isSome

def decided (less : Comparator α) (a b : α) : Bool := (less a b).getD false

lemma answersAll_iff {less : Comparator α} {l : List α} :
    answersAll less l = true ↔ ∀ a ∈ l, ∀ b ∈ l, (less a b).isSome = true := by
  simp [answersAll]

lemma answersAt_iff {less : Comparator α} {l : List α} {v : α} :
    answersAt less l v = true ↔ ∀ a ∈ l, (less a v).isSome = true ∧ (less v a).isSome = true := by
  simp [answersAt]

lemma sortAll_perm (p : α → α → Bool) (l : List α) : (l.foldr (insertSorted p) []).Perm l := by
  induction l with
  | nil => exact List.Perm.refl _
  | cons a l ih =>
    rw [List.foldr_cons]
    exact (insertSorted_perm a _).trans (ih.cons a)

variable {less : Comparator α} {lt : α → α → Prop} [DecidableRel lt]

lemma Decides.decided_eq {l : List α} (h : Decides less lt l) {a b : α} (ha : a ∈ l) (hb : b ∈ l) :
    decided less a b = decide (lt a b) := by rw [decided, h a ha b hb, Option.getD_some]

lemma Decides.tail {a : α} {l : List α} (h : Decides less lt (a :: l)) : Decides less lt l :=
  fun b hb c hc => h b (List.mem_cons_of_mem a hb) c (List.mem_cons_of_mem a hc)

lemma Decides.answersAll {l : List α} (h : Decides less lt l) : answersAll less l = true :=
  answersAll_iff.mpr fun a ha b hb => by rw [h a ha b hb, Option.isSome_some]

variable [IsStrictWeakOrder α lt]

lemma sortAll_pairwise {l : List α} (h : Decides less lt l) :
    (l.foldr (insertSorted (decided less)) []).Pairwise fun a b => ¬lt b a := by
  induction l with
  | nil => exact List.Pairwise.nil
  | cons a l ih =>
    rw [List.foldr_cons]
    refine insertSorted_pairwise (fun b hb => ?_) (ih h.tail)
    exact h.decided_eq List.mem_cons_self (List.mem_cons_of_mem a ((sortAll_perm _ l).mem_iff.mp hb))

lemma setAll_spec {l : List α} (h : Decides less lt l) :
    (l.foldr (insertSet (decided less)) []).Pairwise lt ∧
      l.foldr (insertSet (decided less)) [] ⊆ l ∧
      ∀ a ∈ l, ∃ b ∈ l.foldr (insertSet (decided less)) [], Equivalent lt a b := by
  induction l with
  | nil => exact ⟨List.Pairwise.nil, List.Subset.refl _, by simp⟩
  | cons a l ih =>
    obtain ⟨hlt, hsub, hequiv⟩ := ih h.tail
    rw [List.foldr_cons]
    have hp : ∀ b ∈ l.foldr (insertSet (decided less)) [],
        decided less a b = decide (lt a b) ∧ decided less b a = decide (lt b a) := by
      intro b hb
      have hb' := List.mem_cons_of_mem a (hsub hb)
      exact ⟨h.decided_eq List.mem_cons_self hb', h.decided_eq hb' List.mem_cons_self⟩
    refine ⟨insertSet_pairwise hp hlt, ?_, ?_⟩
    · exact List.Subset.trans (insertSet_subset a _) (List.cons_subset_cons a hsub)
    · intro b hb
      rcases List.mem_cons.mp hb with rfl | hb
      · exact insertSet_equivalent hp
      · obtain ⟨c, hc, hbc⟩ := hequiv b hb
        exact ⟨c, subset_insertSet a _ hc, hbc⟩

/-- The library that calls the comparator on every pair the contract speaks of. -/
def cautious : StdLib α where
  set less l := if answersAll less l then some (l.foldr (insertSet (decided less)) []) else none
  sort less l := if answersAll less l then some (l.foldr (insertSorted (decided less)) []) else none
  binarySearch less l v :=
    if answersAt less l v then some (l.any fun a => !decided less a v && !decided less v a) else none
  set_spec h := ⟨_, if_pos h.answersAll, setAll_spec h⟩
  sort_spec h := ⟨_, if_pos h.answersAll, sortAll_perm _ _, sortAll_pairwise h⟩
  binarySearch_spec := by
    intro less lt _ _ l v h _
    rw [if_pos (answersAt_iff.mpr fun a ha => by simp [h a ha]), Option.some.injEq, Bool.eq_iff_iff,
      List.any_eq_true, decide_eq_true_eq]
    refine exists_congr fun a => and_congr_right fun ha => ?_
    simp [decided, h a ha, Equivalent]

lemma cautious_sort_eq_some {l r : List α} (h : cautious.sort less l = some r) :
    answersAll less l = true ∧ r.Perm l := by
  obtain ⟨hanswers, hr⟩ := Option.ite_none_right_eq_some.mp h
  rw [← Option.some.inj hr]
  exact ⟨hanswers, sortAll_perm _ l⟩

lemma cautious_binarySearch_eq_some {l : List α} {v : α} {found : Bool}
    (h : cautious.binarySearch less l v = some found) : answersAt less l v = true :=
  (Option.ite_none_right_eq_some.mp h).1

end Cautious

end StdOrder
