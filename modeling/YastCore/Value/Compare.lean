import YastCore.Lib.KeyOrder
import YastCore.Value.Basic

/-!
# The order of values

`YCPValueRep::compare` with its flag `rl` at the default, which is what `std::map`, `std::sort` and
`ycp_less` use. The sizes of lists and maps pass through an `int` on their way, and a method called
through a null handle is a crash, so the function is partial.
-/

namespace YastCore

/-- The value that a `size_t` has as an `int`. -/
def toInt32 (n : Nat) : Int := Int.bmod n (2 ^ 32)

lemma toInt32_lt (n : Nat) : toInt32 n < 2 ^ 31 := by
  have h := Int.bmod_lt (x := (n : Int)) (m := 2 ^ 32) (by decide)
  unfold toInt32
  omega

lemma neg_le_toInt32 (n : Nat) : -2 ^ 31 ≤ toInt32 n := by
  have h := Int.le_bmod (x := (n : Int)) (m := 2 ^ 32) (by decide)
  unfold toInt32
  omega

namespace YCPValue

/-- `YCPOrder` of two texts: `std::string` compares unsigned bytes. -/
def compareText (a b : Text) : Ordering := Ord.compare a b

/-- `YCPByteblockRep::compare`: sizes first, then the content. -/
def compareByteblock (a b : List UInt8) : Ordering :=
  (Ord.compare a.length b.length).then (Ord.compare a b)

/-- The loop of `YCPPathRep::compare`; `none` when it ends without a verdict. -/
def comparePathLoop : List PathComponent → List PathComponent → Option Ordering
  | [], _ => none
  | _ :: _, [] => some .gt
  | a :: l, b :: m =>
    match compareText a.component b.component with
    | .lt => some .lt
    | .gt => some .gt
    | .eq => comparePathLoop l m

/-- `YCPPathRep::compare`. The counter of the loop is unsigned, so over 2^32 components or more it
wraps and the loop has no end of its own. -/
def comparePath (a b : List PathComponent) : Option Ordering :=
  match comparePathLoop (a.take (2 ^ 32)) b with
  | some o => some o
  | none => if a.length < 2 ^ 32 then some (Ord.compare a.length b.length) else none

/-- `YCPListRep::compare`, given the lengths and the comparison of the first `n` elements. -/
def compareList (length lengthL : Nat) (elements : Nat → Option Ordering) : Option Ordering :=
  let sizeThis := toInt32 length
  let sizeL := toInt32 lengthL
  if sizeThis = 0 ∧ sizeL = 0 then some .eq
  else if sizeThis = 0 then some .lt
  else if sizeL = 0 then some .gt
  else
    match elements (min sizeThis sizeL).toNat with
    | some .eq => some (if sizeThis = sizeL then .eq else if sizeThis < sizeL then .lt else .gt)
    | o => o

/-- `YCPMapRep::compare`, given the lengths and the pairwise comparison. -/
def compareMap (length lengthM : Nat) (entries : Option Ordering) : Option Ordering :=
  let sizeThis := toInt32 length
  let sizeM := toInt32 lengthM
  if sizeThis = 0 ∧ sizeM = 0 then some .eq
  else if sizeThis < sizeM then some .lt
  else if sizeM < sizeThis then some .gt
  else entries

mutual

/-- `YCPValueRep::compare`; `none` is a crash or a loop without end. -/
def compare (v w : YCPValue) : Option Ordering :=
  if v.isNull then none
  else if w.isNull then some .eq
  else if v.valuetype = w.valuetype then
    match v, w with
    | boolean a, boolean b => some (Ord.compare a b)
    | integer a, integer b => some (Ord.compare a.toInt b.toInt)
    | string a, string b => some (compareText a b)
    | byteblock a, byteblock b => some (compareByteblock a b)
    | path a, path b => comparePath a b
    | symbol a, symbol b => some (compareText a b)
    | list a, list b => compareList a.length b.length fun n => compareElements n a b
    | term n a, term n' b =>
      if n = n' then compareList a.length b.length fun n => compareElements n a b
      else some (if compareText n n' = .lt then .lt else .gt)
    | map a, map b => compareMap a.length b.length (compareEntries a b)
    | code _, code _ => some .lt
    | reference _, reference _ => some .lt
    | _, _ => some .eq
  else some (if v.valuetype < w.valuetype then .lt else .gt)

/-- The first `n` elements, in order. -/
def compareElements : Nat → List YCPValue → List YCPValue → Option Ordering
  | n + 1, a :: l, b :: m =>
    match compare a b with
    | some .eq => compareElements n l m
    | o => o
  | _, _, _ => some .eq

/-- The pairwise comparison of keys and values: only the end of the other map ends the loop. -/
def compareEntries : List (YCPValue × YCPValue) → List (YCPValue × YCPValue) → Option Ordering
  | _, [] => some .eq
  | [], _ :: _ => none
  | (k, v) :: l, (k', v') :: m =>
    match compare k k' with
    | some .eq =>
      match compare v v' with
      | some .eq => compareEntries l m
      | o => o
    | o => o

end

lemma compare_list (l m : List YCPValue) :
    compare (list l) (list m) = compareList l.length m.length fun n => compareElements n l m := by
  simp [compare, isNull, valuetype]

lemma compare_term (t t' : Text) (l m : List YCPValue) :
    compare (term t l) (term t' m) =
      if t = t' then compareList l.length m.length fun n => compareElements n l m
      else some (if compareText t t' = .lt then .lt else .gt) := by
  simp [compare, isNull, valuetype]

lemma compare_map (l m : List (YCPValue × YCPValue)) :
    compare (map l) (map m) = compareMap l.length m.length (compareEntries l m) := by
  simp [compare, isNull, valuetype]

lemma eq_null_of_isNull {v : YCPValue} (h : v.isNull = true) : v = null := by
  cases v with
  | null => rfl
  | _ => cases h

lemma compare_of_valuetype_ne {v w : YCPValue} (hv : v.isNull = false) (hw : w.isNull = false)
    (h : v.valuetype ≠ w.valuetype) :
    compare v w = some (if v.valuetype < w.valuetype then .lt else .gt) := by
  unfold compare
  rw [hv, hw, if_neg Bool.false_ne_true, if_neg Bool.false_ne_true, if_neg h]

/-- The functor `ycp_less`. -/
def ycpLess (a b : YCPValue) : Prop := a.compare b = some .lt

end YCPValue

end YastCore
