import YastCore.Value.Container

/-!
# Operations with an index

The bracket read and the bracket assignment, and the list builtins that take an index. A YCP integer
has 64 bits; some of them narrow it to an `int` before they compare it with the size.
-/

namespace YastCore.YCPValue

/-- The value that a YCP integer has as an `int`. -/
def narrow (i : Int64) : Int := Int.bmod i.toInt (2 ^ 32)

/-- `YCPListRep::size`. -/
def listSize (l : List YCPValue) : Int := toInt32 l.length

/-- `YCPListRep::value`. -/
def listValue (l : List YCPValue) (n : Int) : YCPValue :=
  if n < 0 || listSize l ≤ n then null else l.getD n.toNat null

/-- `YCPMapRep::functionalAdd`; the null handle for a key of the wrong kind. -/
def mapFunctionalAdd (m : List (YCPValue × YCPValue)) (key value : YCPValue) : YCPValue :=
  if key.isMapKey then map (mapInsert key value m) else null

/-! ### Brackets -/

/-- One turn of the loop in `YEBracket::evaluate`, for an element of a list or a term. -/
def bracketElement (l : List YCPValue) (v : YCPValue) : YCPValue :=
  match v with
  | integer idx =>
    if idx.toInt < 0 || listSize l ≤ idx.toInt then null else listValue l (narrow idx)
  | _ => null

def bracketStep (result v : YCPValue) : YCPValue :=
  if v.isNull then null
  else
    match result with
    | list l => bracketElement l v
    | term _ l => bracketElement l v
    | map m => mapValue m v
    | _ => null

/-- The loop over the indices. The null handle stands for the default. -/
def bracketLoop (result : YCPValue) : List YCPValue → YCPValue
  | [] => result
  | v :: indices =>
    let next := bracketStep result v
    if next.isNull then null else bracketLoop next indices

/-- `YEBracket::evaluate` with the variable, the indices and the default evaluated. -/
def bracketRead (var : YCPValue) (indices : List YCPValue) (default : YCPValue) : YCPValue :=
  let result := bracketLoop var indices
  if result.isNull then default else result

/-- `YSBracket::commit` at the indices that are left. -/
def commit (current : YCPValue) (arg : List YCPValue) (value : YCPValue) : YCPValue :=
  match arg with
  | [] => value
  | argval :: rest =>
    if current.isNull then null
    else if argval.isNull then null
    else
      match current with
      | list l =>
        match argval with
        | integer i =>
          if rest.isEmpty then list (listSet l (narrow i) (if value.isNull then void else value))
          else
            let val := commit (listValue l (narrow i)) rest value
            if val.isNull then null else list (listSet l (narrow i) val)
        | _ => null
      | map m =>
        if rest.isEmpty then mapFunctionalAdd m argval (if value.isNull then void else value)
        else
          let val := commit (mapValue m argval) rest value
          if val.isNull then null else mapFunctionalAdd m argval val
      | term name l =>
        match argval with
        | integer i =>
          if rest.isEmpty then term name (listSet l (narrow i) (if value.isNull then void else value))
          else
            let val := commit (listValue l (narrow i)) rest value
            if val.isNull then null else term name (listSet l (narrow i) val)
        | _ => null
      | _ => null

/-! ### Builtins -/

/-- The loop of the two `sublist` builtins. -/
def copyRange (l : List YCPValue) (i1 i2 : Int) : YCPValue :=
  list ((List.range (i2 - i1).toNat).map fun k => listValue l (i1 + k))

def lSublist1 : Option (List YCPValue) → Option Int64 → YCPValue
  | some l, some offset =>
    let i1 := narrow offset
    let i2 := listSize l
    if i1 < 0 || listSize l ≤ i1 then null else copyRange l i1 i2
  | _, _ => null

/-- The sum is one of 64 bits, and then narrowed. -/
def lSublist2 : Option (List YCPValue) → Option Int64 → Option Int64 → YCPValue
  | some l, some offset, some length =>
    let i1 := narrow offset
    let i2 := narrow (Int64.ofInt i1 + length)
    if i1 < 0 || listSize l ≤ i1 then null
    else if i2 < i1 || listSize l < i2 then null
    else copyRange l i1 i2
  | _, _, _ => null

/-- `long` has 64 bits. -/
def lRemove : Option (List YCPValue) → Option Int64 → YCPValue
  | some l, some i =>
    if i.toInt < 0 || listSize l ≤ i.toInt then list l else list (l.eraseIdx i.toInt.toNat)
  | _, _ => null

def lSelect (l i default : YCPValue) : YCPValue :=
  match l, i with
  | list l, integer i =>
    if i.toInt < 0 || listSize l ≤ i.toInt then default else listValue l (narrow i)
  | _, _ => default

/-- `YCPListRep::swap`. -/
def listSwap (l : List YCPValue) (x y : Int) : List YCPValue :=
  if x < 0 || listSize l ≤ x || y < 0 || listSize l ≤ y then l
  else (l.set x.toNat (l.getD y.toNat null)).set y.toNat (l.getD x.toNat null)

def lSwaplist : Option (List YCPValue) → Option Int64 → Option Int64 → YCPValue
  | some l, some i1, some i2 =>
    let it1 := narrow i1
    let it2 := narrow i2
    let siz := listSize l
    if it1 < 0 || siz ≤ it1 then list l
    else if it2 < 0 || siz ≤ it2 then list l
    else list (listSwap l it1 it2)
  | _, _, _ => null

/-! ### Indices out of range -/

/-- An index that no element has. -/
def OutOfRange (l : List YCPValue) (i : Int) : Prop := i < 0 ∨ (l.length : Int) ≤ i

lemma listSize_le (l : List YCPValue) : listSize l ≤ l.length := toInt32_le l.length

lemma listSize_lt (l : List YCPValue) : listSize l < 2 ^ 31 := toInt32_lt l.length

lemma neg_le_listSize (l : List YCPValue) : -2 ^ 31 ≤ listSize l := neg_le_toInt32 l.length

/-- Up to the greatest `int` the size is the length. -/
lemma listSize_eq_length_iff (l : List YCPValue) : listSize l = l.length ↔ l.length < 2 ^ 31 := by
  constructor
  · intro h
    have hlt := listSize_lt l
    omega
  · exact toInt32_of_lt

lemma listValue_of_lt {l : List YCPValue} {j : Int} (h0 : 0 ≤ j) (h : j < listSize l) :
    listValue l j = l.getD j.toNat null := by
  rw [listValue, if_neg]
  simp only [Bool.or_eq_true, decide_eq_true_eq]
  omega

lemma listValue_of_getElem? {l : List YCPValue} {k : Nat} {v : YCPValue} (hk : k < (listSize l).toNat)
    (hv : l[k]? = some v) : listValue l k = v := by
  rw [listValue_of_lt (Int.natCast_nonneg k) (Int.lt_toNat.mp hk), Int.toNat_natCast,
    List.getD_eq_getElem?_getD, hv, Option.getD_some]

/-- The elements that a loop up to `size` comes to. -/
def visited (l : List YCPValue) : List YCPValue := l.take (listSize l).toNat

def unvisited (l : List YCPValue) : List YCPValue := l.drop (listSize l).toNat

lemma visited_of_length_lt {l : List YCPValue} (h : l.length < 2 ^ 31) :
    visited l = l ∧ unvisited l = [] := by
  have hsize : (listSize l).toNat = l.length := by
    rw [(listSize_eq_length_iff l).mpr h, Int.toNat_natCast]
  rw [visited, unvisited, hsize]
  exact ⟨List.take_length, List.drop_length⟩

lemma length_visited_lt (l : List YCPValue) : (visited l).length < 2 ^ 31 := by
  have hsize := listSize_lt l
  rw [visited, List.length_take]
  generalize listSize l = size at hsize
  omega

/-- What such a loop reads. -/
lemma map_range_listValue (l : List YCPValue) :
    (List.range (listSize l).toNat).map (fun k : Nat => listValue l k) = visited l := by
  have hle : (listSize l).toNat ≤ l.length := by
    have hsize := listSize_le l
    generalize listSize l = size at hsize
    omega
  apply List.ext_getElem?
  intro k
  rw [visited, List.getElem?_map, List.getElem?_take]
  by_cases hk : k < (listSize l).toNat
  · have hlen : k < l.length := by omega
    rw [List.getElem?_range hk, if_pos hk, Option.map_some,
      listValue_of_getElem? hk (List.getElem?_eq_getElem hlen), List.getElem?_eq_getElem hlen]
  · rw [List.getElem?_eq_none (by rw [List.length_range]; omega), if_neg hk, Option.map_none]

/-- The comparison with the `int` that `size` returns. -/
lemma outOfRange_listSize {l : List YCPValue} {i : Int} (h : OutOfRange l i) :
    (i < 0 || listSize l ≤ i) = true := by
  have hsize := listSize_le l
  unfold OutOfRange at h
  simp only [Bool.or_eq_true, decide_eq_true_eq]
  omega

lemma listValue_outOfRange {l : List YCPValue} {i : Int} (h : OutOfRange l i) :
    listValue l i = null := by
  rw [listValue, outOfRange_listSize h]
  rfl

lemma bracketRead_outOfRange {l : List YCPValue} {i : Int64} (h : OutOfRange l i.toInt)
    (rest : List YCPValue) (default : YCPValue) :
    bracketRead (list l) (integer i :: rest) default = default := by
  have hstep : bracketStep (list l) (integer i) = null := by
    simp only [bracketStep, isNull, bracketElement, outOfRange_listSize h]
    simp
  simp [bracketRead, bracketLoop, hstep, isNull]

lemma lSelect_outOfRange {l : List YCPValue} {i : Int64} (h : OutOfRange l i.toInt)
    (default : YCPValue) : lSelect (list l) (integer i) default = default := by
  simp only [lSelect, outOfRange_listSize h]
  simp

lemma lRemove_outOfRange {l : List YCPValue} {i : Int64} (h : OutOfRange l i.toInt) :
    lRemove (some l) (some i) = list l := by
  simp only [lRemove, outOfRange_listSize h]
  simp

lemma lSublist1_outOfRange {l : List YCPValue} {i : Int64} (h : OutOfRange l (narrow i)) :
    lSublist1 (some l) (some i) = null := by
  simp only [lSublist1, outOfRange_listSize h]
  simp

lemma lSublist2_outOfRange {l : List YCPValue} {i : Int64} (h : OutOfRange l (narrow i))
    (length : Int64) : lSublist2 (some l) (some i) (some length) = null := by
  simp only [lSublist2, outOfRange_listSize h]
  simp

lemma lSwaplist_outOfRange {l : List YCPValue} {i : Int64} (h : OutOfRange l (narrow i))
    (j : Int64) :
    lSwaplist (some l) (some i) (some j) = list l ∧ lSwaplist (some l) (some j) (some i) = list l := by
  have hi := outOfRange_listSize h
  constructor
  · simp only [lSwaplist, hi]
    simp
  · simp only [lSwaplist, hi]
    simp

/-- What is left of the elements of `l` after an assignment: the assignment fails, or they are the
first elements of the new list. -/
def KeepsElements (l : List YCPValue) (result : YCPValue) : Prop :=
  result = null ∨ ∃ added, result = list (l ++ added)

lemma listSet_outOfRange {l : List YCPValue} {i : Int} (h : OutOfRange l i) (v : YCPValue) :
    ∃ added, listSet l i v = l ++ added := by
  by_cases hneg : i < 0
  · exact ⟨[], by simp [listSet, hneg]⟩
  · have hlen : l.length ≤ i.toNat := by
      unfold OutOfRange at h
      omega
    refine ⟨(List.replicate (i.toNat + 1 - l.length) void).set (i.toNat - l.length) v, ?_⟩
    rw [listSet, if_neg hneg, List.set_append_right _ _ hlen]

lemma commit_outOfRange {l : List YCPValue} {i : Int64} (h : OutOfRange l (narrow i))
    (rest : List YCPValue) (value : YCPValue) :
    KeepsElements l (commit (list l) (integer i :: rest) value) := by
  cases rest with
  | nil =>
    obtain ⟨added, hset⟩ := listSet_outOfRange h (if value.isNull then void else value)
    exact .inr ⟨added, by rw [← hset]; rfl⟩
  | cons w rest =>
    left
    simp [commit, listValue_outOfRange h, isNull]

/-- An index outside the list is treated so by every operation that does not narrow it, and by the
others as long as it is still outside when narrowed. -/
theorem index_outOfRange (l : List YCPValue) (i : Int64) (h : OutOfRange l i.toInt) :
    (∀ rest default, bracketRead (list l) (integer i :: rest) default = default) ∧
      (∀ default, lSelect (list l) (integer i) default = default) ∧
      lRemove (some l) (some i) = list l ∧
      (OutOfRange l (narrow i) →
        lSublist1 (some l) (some i) = null ∧
        (∀ length, lSublist2 (some l) (some i) (some length) = null) ∧
        (∀ j, lSwaplist (some l) (some i) (some j) = list l ∧
          lSwaplist (some l) (some j) (some i) = list l) ∧
        ∀ rest value, KeepsElements l (commit (list l) (integer i :: rest) value)) := by
  refine ⟨bracketRead_outOfRange h, lSelect_outOfRange h, lRemove_outOfRange h, ?_⟩
  intro hnarrow
  refine ⟨lSublist1_outOfRange hnarrow, lSublist2_outOfRange hnarrow, ?_, ?_⟩
  · exact lSwaplist_outOfRange hnarrow
  · exact commit_outOfRange hnarrow

theorem index_outOfRange_five :
    OutOfRange [boolean true] (5 : Int64).toInt ∧ OutOfRange [boolean true] (narrow 5) ∧
      bracketRead (list [boolean true]) [integer 5] void = void ∧
      lSublist1 (some [boolean true]) (some 5) = null := by
  have h : OutOfRange [boolean true] (5 : Int64).toInt := .inr (by decide)
  have hnarrow : OutOfRange [boolean true] (narrow 5) := .inr (by decide)
  have hall := index_outOfRange [boolean true] 5 h
  exact ⟨h, hnarrow, hall.1 [] void, (hall.2.2.2 hnarrow).1⟩

/-- `remove` returns the list and not nil; 2^32 is out of range and yet `sublist` starts at 0, `swap`
moves the first element and an assignment replaces it. -/
theorem index_four_gib :
    OutOfRange [boolean true, void] (4294967296 : Int64).toInt ∧
      lRemove (some [boolean true, void]) (some 4294967296) ≠ null ∧
      lSublist1 (some [boolean true, void]) (some 4294967296) ≠ null ∧
      lSwaplist (some [boolean true, void]) (some 4294967296) (some 1) = list [void, boolean true] ∧
      commit (list [boolean true, void]) [integer 4294967296] (boolean false) =
        list [boolean false, void] := by
  have hzero : narrow 4294967296 = 0 := by decide
  have hsize : listSize [boolean true, void] = 2 := by decide
  have hindex : (4294967296 : Int64).toInt = 4294967296 := by decide
  refine ⟨.inr (by decide), ?_, ?_, ?_, ?_⟩
  · simp [lRemove, hsize, hindex]
  · simp [lSublist1, hzero, hsize, copyRange]
  · have hone : narrow 1 = 1 := by decide
    simp [lSwaplist, hzero, hone, hsize, listSwap]
  · simp [commit, hzero, listSet, isNull]

end YastCore.YCPValue
