import YastCore.Builtin.ListSet
import YastCore.Lib.StdOrder

/-!
# Lists as ordered sets

`toset`, `sort` and `setcontains`, which leave the work to the standard library and give it `ycp_less`.
Between two data values the comparison follows one key wherever it returns both ways round, so the library
sees a strict weak order.
-/

namespace YastCore

open KeyOrder StdOrder YCPValue

/-! ### The builtins -/

/-- The functor `ycp_less` as the algorithms call it. -/
def lessCall : Comparator YCPValue := fun x y => (compare x y).map fun o => decide (o = .lt)

/-- `YCPListRep::shallowCopy`; `none` where `reserve` gets a negative size and throws. -/
def shallowCopy (l : List YCPValue) : Option (List YCPValue) :=
  if listSize l < 0 then none
  else some ((List.range (listSize l).toNat).map fun i : Nat => listValue l i)

variable (lib : StdLib YCPValue)

def lToset : Option (List YCPValue) → Option YCPValue
  | some l => (lib.set lessCall l).map list
  | none => none

/-- The argument has another owner, so the list that is sorted is a copy. -/
def lSortlist : Option (List YCPValue) → Option YCPValue
  | some l => (shallowCopy l).bind fun ret => (lib.sort lessCall ret).map list
  | none => some null

def lSetcontains : Option (List YCPValue) → YCPValue → Option YCPValue
  | some l, value => (lib.binarySearch lessCall l value).map boolean
  | none, _ => none

/-- `s` is the ordered set of the list and `r` the sorted list, and all three answer the same for the value. -/
structure Agreement (l : List YCPValue) (v : YCPValue) (s r : List YCPValue) (found : Bool) : Prop where
  toset : lToset lib (some l) = some (list s)
  increasing : s.Pairwise ycpLess
  sort : lSortlist lib (some l) = some (list r)
  perm : r.Perm l
  nondecreasing : r.Pairwise fun a b => ¬ycpLess b a
  toset_toset : lToset lib (some s) = some (list s)
  setcontains_toset : lSetcontains lib (some s) v = some (boolean found)
  setcontains_sort : lSetcontains lib (some r) v = some (boolean found)
  contains : lContains (some l) v = some (boolean found)

def SetsAgree (l : List YCPValue) (v : YCPValue) : Prop := ∃ s r found, Agreement lib l v s r found

/-- An `int` holds the size of the list, and each comparison of its elements and of the value returns. -/
def Comparable (l : List YCPValue) (v : YCPValue) : Prop :=
  l.length < 2 ^ 31 ∧ (∀ x ∈ l, ∀ y ∈ l, (compare x y).isSome = true) ∧
    ∀ x ∈ l, (compare x v).isSome = true ∧ (compare v x).isSome = true

/-! ### The order of the keys -/

def wideLt (v w : YCPValue) : Prop := lex (wideKey v) (wideKey w) = .lt

instance : DecidableRel wideLt := fun v w => inferInstanceAs (Decidable (lex (wideKey v) (wideKey w) = .lt))

lemma equivalent_wideLt_iff {v w : YCPValue} : Equivalent wideLt v w ↔ wideKey v = wideKey w :=
  incomparable_iff

instance : IsStrictWeakOrder YCPValue wideLt where
  irrefl v h := by
    rw [wideLt, (lex_eq_iff _ _).mpr rfl] at h
    cases h
  trans _ _ _ h h' := lex_lt_trans h h'
  incomp_trans _ _ _ h h' :=
    equivalent_wideLt_iff.mpr ((equivalent_wideLt_iff.mp h).trans (equivalent_wideLt_iff.mp h'))

section Key

variable {v w : YCPValue}

lemma compare_eq_wideLex (hv : v.isData = true) (h : (compare v w).isSome = true)
    (h' : (compare w v).isSome = true) : compare v w = some (lex (wideKey v) (wideKey w)) := by
  obtain ⟨o, ho⟩ := Option.isSome_iff_exists.mp h
  obtain ⟨o', ho'⟩ := Option.isSome_iff_exists.mp h'
  rw [ho, (compare_agree v w hv o o' ho ho').1.lex_eq]

lemma compare_eq_wideLex_right (hv : v.isData = true) (h : (compare v w).isSome = true)
    (h' : (compare w v).isSome = true) : compare w v = some (lex (wideKey w) (wideKey v)) := by
  obtain ⟨o, ho⟩ := Option.isSome_iff_exists.mp h
  obtain ⟨o', ho'⟩ := Option.isSome_iff_exists.mp h'
  rw [ho', (compare_agree v w hv o o' ho ho').2.lex_eq]

lemma lessCall_of_eq (h : compare v w = some (lex (wideKey v) (wideKey w))) :
    lessCall v w = some (decide (wideLt v w)) := by
  rw [lessCall, h]
  rfl

lemma ycpLess_iff_of_eq (h : compare v w = some (lex (wideKey v) (wideKey w))) : ycpLess v w ↔ wideLt v w := by
  rw [ycpLess, h, Option.some.injEq, wideLt]

lemma ycpEqualTo_of_eq (h : compare v w = some (lex (wideKey v) (wideKey w))) :
    ycpEqualTo v w = some (decide (Equivalent wideLt v w)) := by
  rw [ycpEqualTo, h, Option.map_some, decide_eq_decide.mpr ((lex_eq_iff _ _).trans equivalent_wideLt_iff.symm)]

end Key

/-! ### Agreement -/

section Agree

variable {lib} {l : List YCPValue} {v : YCPValue}

lemma shallowCopy_of_length_lt (h : l.length < 2 ^ 31) : shallowCopy l = some l := by
  have hsize : ¬listSize l < 0 := by
    rw [(listSize_eq_length_iff l).mpr h]
    omega
  rw [shallowCopy, if_neg hsize]
  exact congrArg some ((map_range_listValue l).trans (visited_of_length_lt h).1)

lemma eq_visited_of_shallowCopy {copy : List YCPValue} (h : shallowCopy l = some copy) : copy = visited l := by
  obtain ⟨-, hcopy⟩ := Option.ite_none_left_eq_some.mp h
  exact (Option.some.inj hcopy).symm.trans (map_range_listValue l)

/-- The comparison of two elements. -/
lemma Comparable.compare_eq (hl : ∀ x ∈ l, x.isData = true) (h : Comparable l v) {x y : YCPValue} (hx : x ∈ l)
    (hy : y ∈ l) : compare x y = some (lex (wideKey x) (wideKey y)) :=
  compare_eq_wideLex (hl x hx) (h.2.1 x hx y hy) (h.2.1 y hy x hx)

lemma Comparable.decides (hl : ∀ x ∈ l, x.isData = true) (h : Comparable l v) {r : List YCPValue}
    (hr : r ⊆ l) : Decides lessCall wideLt r :=
  fun _ hx _ hy => lessCall_of_eq (h.compare_eq hl (hr hx) (hr hy))

lemma Comparable.decidesAt (hl : ∀ x ∈ l, x.isData = true) (h : Comparable l v) {r : List YCPValue}
    (hr : r ⊆ l) : DecidesAt lessCall wideLt r v := by
  intro x hx
  have hx' := hr hx
  obtain ⟨hxv, hvx⟩ := h.2.2 x hx'
  exact ⟨lessCall_of_eq (compare_eq_wideLex (hl x hx') hxv hvx),
    lessCall_of_eq (compare_eq_wideLex_right (hl x hx') hxv hvx)⟩

lemma Comparable.contains (hl : ∀ x ∈ l, x.isData = true) (h : Comparable l v) :
    listContains l v = some (decide (∃ x ∈ l, Equivalent wideLt x v)) := by
  refine Distinct.search_of_decided fun x hx => ?_
  obtain ⟨hxv, hvx⟩ := h.2.2 x hx
  exact ycpEqualTo_of_eq (compare_eq_wideLex (hl x hx) hxv hvx)

theorem setsAgree_of_comparable (lib : StdLib YCPValue) (hl : ∀ x ∈ l, x.isData = true) (h : Comparable l v) :
    SetsAgree lib l v := by
  have hdec : Decides lessCall wideLt l := h.decides hl (List.Subset.refl l)
  obtain ⟨s, hset, hslt, hsub, hequiv⟩ := lib.set_spec hdec
  obtain ⟨r, hsort, hperm, hsorted⟩ := lib.sort_spec hdec
  have hmem : ∀ x ∈ r, x ∈ l := fun x hx => hperm.mem_iff.mp hx
  have hsearchSet := lib.binarySearch_spec (h.decidesAt hl hsub)
    (hslt.imp fun hab hba => lt_irrefl_of _ (lt_trans_of hab hba))
  have hsearchSort := lib.binarySearch_spec (h.decidesAt hl hmem) hsorted
  refine ⟨s, r, decide (∃ x ∈ l, Equivalent wideLt x v), ?_, ?_, ?_, hperm, ?_, ?_, ?_, ?_, ?_⟩
  · rw [lToset, hset, Option.map_some]
  · exact hslt.imp_of_mem fun ha hb hab => (ycpLess_iff_of_eq (h.compare_eq hl (hsub ha) (hsub hb))).mpr hab
  · rw [lSortlist, shallowCopy_of_length_lt h.1, Option.bind_some, hsort, Option.map_some]
  · exact hsorted.imp_of_mem fun ha hb hab hless =>
      hab ((ycpLess_iff_of_eq (h.compare_eq hl (hmem _ hb) (hmem _ ha))).mp hless)
  · rw [lToset, set_of_pairwise lib (h.decides hl hsub) hslt, Option.map_some]
  · rw [lSetcontains, hsearchSet, Option.map_some, decide_eq_decide.mpr (exists_equivalent_iff hsub hequiv v)]
  · have hsame : (∃ x ∈ r, Equivalent wideLt x v) ↔ ∃ x ∈ l, Equivalent wideLt x v :=
      exists_congr fun x => and_congr_left fun _ => hperm.mem_iff
    rw [lSetcontains, hsearchSort, Option.map_some, decide_eq_decide.mpr hsame]
  · rw [lContains, h.contains hl, Option.map_some]

/-- A library that compares whatever the contract lets it compare does not return unless all can be compared. -/
theorem comparable_of_setsAgree (h : SetsAgree cautious l v) : Comparable l v := by
  obtain ⟨s, r, found, hagree⟩ := h
  have hret := hagree.sort
  rw [lSortlist, Option.bind_eq_some_iff] at hret
  obtain ⟨copy, hcopy, hret⟩ := hret
  obtain ⟨r', hsort, hr⟩ := Option.map_eq_some_iff.mp hret
  obtain ⟨found', hsearch, -⟩ := Option.map_eq_some_iff.mp hagree.setcontains_sort
  obtain rfl := list.inj hr
  rw [eq_visited_of_shallowCopy hcopy] at hsort
  obtain ⟨hanswers, hperm⟩ := cautious_sort_eq_some hsort
  have hlength : l.length < 2 ^ 31 := by
    rw [← hagree.perm.length_eq, hperm.length_eq]
    exact length_visited_lt l
  rw [(visited_of_length_lt hlength).1] at hanswers
  refine ⟨hlength, fun x hx y hy => ?_, fun x hx => ?_⟩
  · have hless := answersAll_iff.mp hanswers x hx y hy
    rwa [lessCall, Option.isSome_map] at hless
  · have hless := answersAt_iff.mp (cautious_binarySearch_eq_some hsearch) x (hagree.perm.mem_iff.mpr hx)
    rwa [lessCall, lessCall, Option.isSome_map, Option.isSome_map] at hless

lemma comparable_of_sized (hl : Sized l) (hv : StorableUpTo (2 ^ 31 - 1) v) : Comparable l v := by
  have hreturns {x y : YCPValue} (hx : StorableUpTo (2 ^ 31 - 1) x) (hy : StorableUpTo (2 ^ 31 - 1) y) :
      (compare x y).isSome = true := by
    obtain ⟨o, ho, -⟩ := compare_tells (n := 2 ^ 31 - 1) (by decide) x y hx hy
    rw [ho, Option.isSome_some]
  refine ⟨hl.1, fun x hx y hy => hreturns (hl.2 x hx) (hl.2 y hy), fun x hx => ?_⟩
  exact ⟨hreturns (hl.2 x hx) hv, hreturns hv (hl.2 x hx)⟩

end Agree

end YastCore
