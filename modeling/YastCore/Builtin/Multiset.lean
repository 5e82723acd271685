import YastCore.Builtin.OrderedSet
import YastCore.Lib.SortedRange

/-!
# Lists as multisets

The builtins of the namespace `multiset` hand two sorted lists to the algorithms of the standard library, with
`ycp_less`. On data values whose comparisons return they are the operations on multisets.
-/

namespace YastCore

open StdOrder YCPValue

/-! ### The builtins -/

def msIncludes (a b : List YCPValue) : Option YCPValue := (includes lessCall a b).map boolean

/-- A set operation of the standard library, which appends to a new list. -/
def setOperation (s : Selection) (a b : List YCPValue) : Option YCPValue := (select s lessCall a b).map list

def msDifference : List YCPValue → List YCPValue → Option YCPValue := setOperation .difference

def msSymmetricDifference : List YCPValue → List YCPValue → Option YCPValue := setOperation .symmetricDifference

def msIntersection : List YCPValue → List YCPValue → Option YCPValue := setOperation .intersection

def msUnion : List YCPValue → List YCPValue → Option YCPValue := setOperation .union

def msMerge (a b : List YCPValue) : Option YCPValue := (merge lessCall a b).map list

/-! ### Multisets -/

/-- How often a value is in a list, by `ycp_equal_to`. -/
def valueCount (v : YCPValue) (l : List YCPValue) : Nat := l.countP fun w => ycpEqualTo w v == some true

def Nondecreasing (l : List YCPValue) : Prop := l.Pairwise fun v w => ¬ycpLess w v

/-- Lists in the order of `sort`, of data values that can be compared with each other. -/
structure Ranges (a b : List YCPValue) : Prop where
  data : ∀ v ∈ a ++ b, v.isData = true
  returns : ∀ v ∈ a ++ b, ∀ w ∈ a ++ b, (compare v w).isSome = true
  first : Nondecreasing a
  second : Nondecreasing b

/-- The result is again such a list, and has each value as often as the numbers in the arguments say. -/
def Yields (a b : List YCPValue) (result : Option YCPValue) (count : Nat → Nat → Nat) : Prop :=
  ∃ r, result = some (list r) ∧ Nondecreasing r ∧ r ⊆ a ++ b ∧
    ∀ v ∈ a ++ b, valueCount v r = count (valueCount v a) (valueCount v b)

structure MultisetAlgebra (a b : List YCPValue) : Prop where
  includes : ∃ found, msIncludes a b = some (boolean found) ∧
    (found = true ↔ ∀ v ∈ a ++ b, valueCount v b ≤ valueCount v a)
  difference : Yields a b (msDifference a b) fun i j => i - j
  symmetricDifference : Yields a b (msSymmetricDifference a b) fun i j => (i - j) + (j - i)
  intersection : Yields a b (msIntersection a b) min
  union : Yields a b (msUnion a b) max
  merge : Yields a b (msMerge a b) fun i j => i + j

namespace Ranges

variable {a b r : List YCPValue} {v : YCPValue}

lemma compare_eq (h : Ranges a b) {w : YCPValue} (hv : v ∈ a ++ b) (hw : w ∈ a ++ b) :
    compare v w = some (KeyOrder.lex (wideKey v) (wideKey w)) :=
  compare_eq_wideLex (h.data v hv) (h.returns v hv w hw) (h.returns w hw v hv)

lemma decides (h : Ranges a b) : Decides lessCall wideLt (a ++ b) :=
  fun _ hv _ hw => lessCall_of_eq (h.compare_eq hv hw)

lemma nondecreasing_iff (h : Ranges a b) (hr : r ⊆ a ++ b) : Nondecreasing r ↔ Sorted wideLt r := by
  refine ⟨fun hsorted => hsorted.imp_of_mem ?_, fun hsorted => hsorted.imp_of_mem ?_⟩
  · exact fun hv hw hless hlt => hless ((ycpLess_iff_of_eq (h.compare_eq (hr hw) (hr hv))).mpr hlt)
  · exact fun hv hw hlt hless => hlt ((ycpLess_iff_of_eq (h.compare_eq (hr hw) (hr hv))).mp hless)

lemma valueCount_eq (h : Ranges a b) (hr : r ⊆ a ++ b) (hv : v ∈ a ++ b) :
    valueCount v r = occurrences wideLt v r := by
  refine List.countP_congr fun w hw => ?_
  rw [ycpEqualTo_of_eq (h.compare_eq (hr hw) hv)]
  simp

lemma sorted (h : Ranges a b) : Sorted wideLt a ∧ Sorted wideLt b :=
  ⟨(h.nondecreasing_iff (List.subset_append_left a b)).mp h.first,
    (h.nondecreasing_iff (List.subset_append_right a b)).mp h.second⟩

/-- A range by its occurrences under the order of the keys. -/
lemma yields (h : Ranges a b) {result : Option (List YCPValue)} {count : Nat → Nat → Nat}
    (hresult : ∃ r, result = some r ∧ Sorted wideLt r ∧ r ⊆ a ++ b ∧
      ∀ v, occurrences wideLt v r = count (occurrences wideLt v a) (occurrences wideLt v b)) :
    Yields a b (result.map list) count := by
  obtain ⟨r, rfl, hsorted, hr, hcount⟩ := hresult
  refine ⟨r, rfl, (h.nondecreasing_iff hr).mpr hsorted, hr, fun v hv => ?_⟩
  rw [h.valueCount_eq hr hv, h.valueCount_eq (List.subset_append_left a b) hv,
    h.valueCount_eq (List.subset_append_right a b) hv, hcount]

lemma setOperation (h : Ranges a b) (s : Selection) : Yields a b (setOperation s a b) s.count :=
  h.yields (select_spec s h.decides h.sorted.1 h.sorted.2)

end Ranges

lemma Yields.congr {a b : List YCPValue} {result : Option YCPValue} {count count' : Nat → Nat → Nat}
    (h : Yields a b result count) (hcount : ∀ i j, count i j = count' i j) : Yields a b result count' := by
  obtain rfl : count = count' := funext fun i => funext fun j => hcount i j
  exact h

lemma ranges_integers : Ranges [integer 1, integer 1, integer 2] [integer 1, integer 3] where
  data := by simp [isData]
  returns v hv w hw := by
    have hinteger : ∀ u ∈ [integer 1, integer 1, integer 2] ++ [integer 1, integer 3], ∃ i, u = integer i := by simp
    obtain ⟨i, rfl⟩ := hinteger v hv
    obtain ⟨j, rfl⟩ := hinteger w hw
    rfl
  first := by
    simp only [Nondecreasing, ycpLess]
    decide
  second := by
    simp only [Nondecreasing, ycpLess]
    decide

end YastCore
