import YastCore.Builtin.Add
import YastCore.Lib.Distinct
import YastCore.Value.Equality

/-!
# Lists as sets

`contains` and `union`, which go by `YCPValueRep::compare`. For the specification two values are the same
when they differ in the quoting of paths at most. A result is `none` where a comparison does not return.
-/

namespace YastCore

open Distinct YCPValue

/-! ### The builtins -/

/-- The functor `ycp_equal_to`. -/
def ycpEqualTo (x y : YCPValue) : Option Bool := (compare x y).map fun o => decide (o = .eq)

/-- `YCPListRep::contains`. -/
def listContains (l : List YCPValue) (value : YCPValue) : Option Bool := search ycpEqualTo l value

def lContains : Option (List YCPValue) → YCPValue → Option YCPValue
  | some l, value => (listContains l value).map boolean
  | none, _ => none

/-- One list of `union`. -/
def unionLoop (newlist l : List YCPValue) : Option (List YCPValue) :=
  (List.range (listSize l).toNat).foldlM
    (fun newlist (e : Nat) => collectStep ycpEqualTo newlist (listValue l e)) newlist

def lUnionlist : Option (List YCPValue) → Option (List YCPValue) → Option (Option (List YCPValue))
  | some list1, some list2 =>
    (unionLoop [] list1).bind fun newlist => (unionLoop newlist list2).map some
  | _, _ => some none

/-! ### What is the same -/

noncomputable instance : DecidableEq YCPValue := Classical.decEq YCPValue

lemma ycpEqualTo_eq_true_iff {x e : YCPValue} : ycpEqualTo x e = some true ↔ compare x e = some .eq := by
  rw [ycpEqualTo]
  cases compare x e <;> simp

/-- On well-formed values the comparison is one that the collection can work with. -/
lemma ycpEqualTo_lawful : Lawful quoteAll ycpEqualTo WellFormed where
  congr_left e h := by rw [ycpEqualTo, ycpEqualTo, compare_congr h rfl]
  congr_right x _ _ h := by rw [ycpEqualTo, ycpEqualTo, compare_congr (v := x) rfl h]
  self he h := ycpEqualTo_eq_true_iff.mpr (compare_self_of_eq he _ (ycpEqualTo_eq_true_iff.mp h))

/-! ### Membership -/

/-- `contains (add (l, v), v)` is true. -/
def ContainsAdded (l : List YCPValue) (v : YCPValue) : Prop :=
  ∃ l', Interp.lAdd (list l) v = .ret (list l') ∧ lContains (some l') v = some (boolean true)

/-- The list can grow, the value is equal to itself, and no comparison stands in the way of that. -/
def FindsItself (l : List YCPValue) (v : YCPValue) : Prop :=
  0 ≤ toInt32 (l.length + 1) ∧ Returns ycpEqualTo (visited l) v ∧ compare v v = some .eq

lemma containsAdded_iff_search {l : List YCPValue} (hsize : 0 ≤ toInt32 (l.length + 1)) (v : YCPValue) :
    ContainsAdded l v ↔ search ycpEqualTo (visited l ++ [v]) v = some true := by
  have hadd := Interp.functionalAdd_eq hsize v
  rw [ContainsAdded, Interp.lAdd, hadd, Option.elim_some]
  generalize visited l ++ [v] = added
  constructor
  · rintro ⟨l', hl', hcontains⟩
    rw [← list.inj (Interp.BuiltinRun.ret.inj hl'), lContains, listContains, Option.map_eq_some_iff] at hcontains
    obtain ⟨found, hfound, htrue⟩ := hcontains
    rwa [boolean.inj htrue] at hfound
  · intro h
    exact ⟨added, rfl, by rw [lContains, listContains, h, Option.map_some]⟩

lemma containsAdded_iff (l : List YCPValue) {v : YCPValue} (hv : WellFormed v) :
    ContainsAdded l v ↔ FindsItself l v := by
  by_cases hsize : toInt32 (l.length + 1) < 0
  · refine iff_of_false ?_ fun h => absurd h.1 (Int.not_le.mpr hsize)
    rintro ⟨l', hl', -⟩
    rw [Interp.lAdd, Interp.functionalAdd_of_neg hsize, Option.elim_none] at hl'
    cases hl'
  · have hgrows := Int.not_lt.mp hsize
    rw [containsAdded_iff_search hgrows, search_self_iff ycpEqualTo_lawful hv, FindsItself, and_iff_right hgrows,
      ycpEqualTo_eq_true_iff]

/-! ### Union -/

lemma unionLoop_eq (newlist l : List YCPValue) : unionLoop newlist l = collect ycpEqualTo newlist (visited l) := by
  rw [unionLoop, collect, ← map_range_listValue, List.foldlM_map]

lemma lUnionlist_eq (a b : List YCPValue) :
    lUnionlist (some a) (some b) = (collect ycpEqualTo [] (visited a ++ visited b)).map some := by
  rw [collect_append, Option.map_bind]
  simp only [lUnionlist, unionLoop_eq]
  rfl

/-- The elements of the first list and then of the second, each once, where it stands first. -/
noncomputable def unionOf (a b : List YCPValue) : List YCPValue := firstOccurrences quoteAll (a ++ b)

def UnionLists (a b : List YCPValue) : Prop := lUnionlist (some a) (some b) = some (some (unionOf a b))

/-- The comparison recognises each element among those before it, and elements past the size that the loops
see repeat others. -/
def UnionTells (a b : List YCPValue) : Prop :=
  AllRecognised quoteAll ycpEqualTo [] (visited a ++ visited b) ∧ unionOf (visited a) (visited b) = unionOf a b

lemma unionLists_iff {a b : List YCPValue} (h : ∀ v ∈ a ++ b, WellFormed v) :
    UnionLists a b ↔ UnionTells a b := by
  have hsub : visited a ++ visited b ⊆ a ++ b := by
    intro v hv
    rcases List.mem_append.mp hv with hv | hv
    · exact List.mem_append_left _ (List.mem_of_mem_take hv)
    · exact List.mem_append_right _ (List.mem_of_mem_take hv)
  have hsome : UnionLists a b ↔ collect ycpEqualTo [] (visited a ++ visited b) = some (unionOf a b) := by
    rw [UnionLists, lUnionlist_eq, Option.map_eq_some_iff]
    constructor
    · rintro ⟨r, hr, heq⟩
      rw [hr, Option.some.inj heq]
    · intro hr
      exact ⟨_, hr, rfl⟩
  rw [hsome, UnionTells]
  exact collect_eq_firstOccurrences_iff ycpEqualTo_lawful (fun e he => h e (hsub he)) hsub

/-- Once collected, the union of the collection with itself is the collection. -/
lemma unionOf_self (a b : List YCPValue) : unionOf (unionOf a b) (unionOf a b) = unionOf a b := by
  have hnodup : ((unionOf a b).map quoteAll).Nodup := nodup_firstOccurrences (a ++ b)
  have hself : unionOf (unionOf a b) (unionOf a b) =
      (unionOf a b).foldl (addNew quoteAll) (firstOccurrences quoteAll (unionOf a b)) :=
    firstOccurrences_append _ _
  rw [hself, firstOccurrences_of_nodup hnodup]
  exact foldl_of_subset fun e he => List.mem_map_of_mem he

lemma unionOf_assoc (a b c : List YCPValue) : unionOf (unionOf a b) c = unionOf a (unionOf b c) := by
  rw [unionOf, unionOf, unionOf, unionOf, firstOccurrences_append_left, firstOccurrences_append_right,
    List.append_assoc]

/-- Union keeps what a collection already has. -/
def Idempotent (a b : List YCPValue) : Prop :=
  lUnionlist (some (unionOf a b)) (some (unionOf a b)) = some (some (unionOf a b))

/-- The two ways to unite three lists give one result. -/
def Associative (a b c : List YCPValue) : Prop :=
  ∃ u, ((lUnionlist (some a) (some b)).bind fun ab => lUnionlist ab (some c)) = some (some u) ∧
    ((lUnionlist (some b) (some c)).bind fun bc => lUnionlist (some a) bc) = some (some u)

lemma associative_of_unionLists {a b c : List YCPValue} (hab : UnionLists a b) (habc : UnionLists (unionOf a b) c)
    (hbc : UnionLists b c) (habc' : UnionLists a (unionOf b c)) : Associative a b c := by
  refine ⟨unionOf (unionOf a b) c, ?_, ?_⟩
  · rw [hab, Option.bind_some, habc]
  · rw [hbc, Option.bind_some, habc', unionOf_assoc]

/-! ### Below the size limit -/

/-- A list of values that a program can store, with no container beyond the range of a signed size. -/
def Sized (l : List YCPValue) : Prop := l.length < 2 ^ 31 ∧ ∀ v ∈ l, StorableUpTo (2 ^ 31 - 1) v

lemma ycpEqualTo_eq {v w : YCPValue} (hv : StorableUpTo (2 ^ 31 - 1) v) (hw : StorableUpTo (2 ^ 31 - 1) w) :
    ycpEqualTo v w = some (decide (v.quoteAll = w.quoteAll ∧ w.holdsCode = false)) := by
  obtain ⟨o, ho, htells⟩ := compare_tells (n := 2 ^ 31 - 1) (by decide) v w hv hw
  have hiff : o = .eq ↔ v.quoteAll = w.quoteAll ∧ w.holdsCode = false := by
    rw [htells]
    refine and_congr_right fun hsame => ?_
    rw [← holdsCode_quoteAll v, hsame, holdsCode_quoteAll]
  rw [ycpEqualTo, ho, Option.map_some, decide_eq_decide.mpr hiff]

lemma returns_of_sized {l : List YCPValue} (hl : Sized l) {v : YCPValue} (hv : StorableUpTo (2 ^ 31 - 1) v) :
    Returns ycpEqualTo l v := by
  rw [← isSome_search_iff]
  obtain ⟨-, hall⟩ := hl
  induction l with
  | nil => rfl
  | cons x l ih =>
    rw [search_cons, ycpEqualTo_eq (hall x List.mem_cons_self) hv, Option.bind_some]
    split
    · rfl
    · exact ih fun y hy => hall y (List.mem_cons_of_mem x hy)

lemma findsItself_iff_of_sized {l : List YCPValue} (hl : Sized l) (hlen : l.length + 1 < 2 ^ 31) {v : YCPValue}
    (hv : StorableUpTo (2 ^ 31 - 1) v) : FindsItself l v ↔ v.holdsCode = false := by
  have hreturns := returns_of_sized hl hv
  have hgrows : 0 ≤ toInt32 (l.length + 1) := by rw [toInt32_of_lt hlen]; exact Int.natCast_nonneg _
  rw [FindsItself, (visited_of_length_lt hl.1).1, and_iff_right hgrows, and_iff_right hreturns,
    ← ycpEqualTo_eq_true_iff, ycpEqualTo_eq hv hv]
  simp

lemma unionTells_iff_of_sized {a b : List YCPValue} (ha : Sized a) (hb : Sized b) :
    UnionTells a b ↔ (a ++ b).Pairwise fun x y => x.quoteAll = y.quoteAll → y.holdsCode = false := by
  have hall : ∀ v ∈ a ++ b, StorableUpTo (2 ^ 31 - 1) v := fun v hv =>
    (List.mem_append.mp hv).elim (ha.2 v) (hb.2 v)
  have hequal : ∀ x ∈ [] ++ (a ++ b), ∀ y ∈ a ++ b,
      ycpEqualTo x y = some (decide (x.quoteAll = y.quoteAll ∧ y.holdsCode = false)) :=
    fun x hx y hy => ycpEqualTo_eq (hall x hx) (hall y hy)
  rw [UnionTells, (visited_of_length_lt ha.1).1, (visited_of_length_lt hb.1).1, and_iff_left rfl,
    allRecognised_iff hequal]
  simp

/-! ### The builtins respect membership -/

end YastCore
