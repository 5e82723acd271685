import YastCore.Lib.Loop
import YastCore.Value.Index
import YastCore.Value.WellFormed

/-!
# Bracket assignments as updates

`YSBracket::commit` with lists that count their elements in an `int`, and what `YEBracket` reads from the
result: the new value at its own indices, and at all others what was there.
-/

namespace YastCore.YCPValue

open Loop

/-! ### Setting an element -/

/-- A pass through the loop of `YCPListRep::set`. -/
def padPass (i : Int) (l : List YCPValue) : Pass (List YCPValue) Unit :=
  if listSize l ≤ i then .again (l ++ [void]) else .returns l ()

/-- `YCPListRep::set`; none if the list is padded for ever. -/
def repSet (l : List YCPValue) (i : Int) (v : YCPValue) : Option (List YCPValue) :=
  if i < 0 then some l
  else if i < 2 ^ 31 - 1 then
    some ((l ++ List.replicate (i + 1 - listSize l).toNat void).set i.toNat v)
  else none

section

variable {l m : List YCPValue} {i : Int} {v : YCPValue}

/-- Up to the greatest `int` the size grows with the list. -/
lemma listSize_append_replicate {k : ℕ} (h : listSize l + k < 2 ^ 31) :
    listSize (l ++ List.replicate k void) = listSize l + k := by
  have hlow := neg_le_listSize l
  unfold listSize toInt32 at *
  rw [List.length_append, List.length_replicate, Int.natCast_add, ← Int.bmod_add_bmod]
  rw [Int.bmod_eq_of_le]
  all_goals omega

lemma padPass_again (h : listSize l ≤ i) : padPass i l = .again (l ++ [void]) := if_pos h

lemma padPass_leaves (h : i < listSize l) : padPass i l = .returns l () := if_neg (by omega)

/-- The loop pads the list up to the index. -/
lemma returns_pad (hi : i < 2 ^ 31 - 1) :
    Returns (padPass i) l (l ++ List.replicate (i + 1 - listSize l).toNat void) () := by
  induction hk : (i + 1 - listSize l).toNat generalizing l with
  | zero =>
    rw [List.replicate_zero, List.append_nil]
    exact (returns_of_returns (padPass_leaves (by omega))).mpr ⟨rfl, rfl⟩
  | succ k ih =>
    have hsize : listSize (l ++ [void]) = listSize l + 1 := listSize_append_replicate (k := 1) (by omega)
    have hjoin : l ++ List.replicate (k + 1) void = l ++ [void] ++ List.replicate k void := by
      rw [List.replicate_succ, List.append_assoc, List.singleton_append]
    rw [returns_of_again (padPass_again (by omega)), hjoin]
    exact ih (by omega)

/-- `repSet` is the loop, and the assignment behind it. -/
lemma repSet_eq_some_iff (hi : 0 ≤ i) :
    repSet l i v = some m ↔ ∃ t, Returns (padPass i) l t () ∧ m = t.set i.toNat v := by
  rw [repSet, if_neg (by omega)]
  by_cases hlarge : i < 2 ^ 31 - 1
  · rw [if_pos hlarge, Option.some.injEq, eq_comm]
    constructor
    · rintro rfl
      exact ⟨_, returns_pad hlarge, rfl⟩
    · rintro ⟨t, ⟨n, hn⟩, rfl⟩
      obtain ⟨n', hn'⟩ := returns_pad (l := l) hlarge
      have h := passes_mono hn (le_max_left n n')
      rw [passes_mono hn' (le_max_right n n')] at h
      cases h
      rfl
  · rw [if_neg hlarge]
    refine iff_of_false (by simp) ?_
    rintro ⟨t, hreturns, -⟩
    have hsize := listSize_lt l
    refine not_returns_of_invariant (fun l => listSize l ≤ i) ?_ (by omega) hreturns
    intro l hl
    have hsize := listSize_lt (l ++ [void])
    exact .inl ⟨_, padPass_again hl, by omega⟩

/-- What an assignment that returns makes of the list. -/
lemma repSet_eq_some (hi : 0 ≤ i) (h : repSet l i v = some m) :
    i < 2 ^ 31 - 1 ∧ m = (l ++ List.replicate (i + 1 - listSize l).toNat void).set i.toNat v := by
  rw [repSet, if_neg (by omega)] at h
  by_cases hlarge : i < 2 ^ 31 - 1
  · rw [if_pos hlarge, Option.some.injEq] at h
    exact ⟨hlarge, h.symm⟩
  · rw [if_neg hlarge] at h
    cases h

/-- After an assignment the new element is in the list. -/
lemma listSize_repSet (hi : 0 ≤ i) (h : repSet l i v = some m) :
    listSize m = max (listSize l) (i + 1) := by
  obtain ⟨hlarge, rfl⟩ := repSet_eq_some hi h
  have hsize := listSize_lt l
  have hset : ∀ t : List YCPValue, listSize (t.set i.toNat v) = listSize t := fun t => by
    rw [listSize, listSize, List.length_set]
  rw [hset, listSize_append_replicate (by omega)]
  omega

/-- The elements after an assignment. -/
lemma getElem?_repSet (hi : 0 ≤ i) (h : repSet l i v = some m) {j : ℕ} (hj : (j : Int) < listSize m) :
    m[j]? = some (if (j : Int) = i then v else l.getD j void) := by
  rw [listSize_repSet hi h] at hj
  obtain ⟨hlarge, rfl⟩ := repSet_eq_some hi h
  have hle := listSize_le l
  rw [List.getElem?_set]
  by_cases hij : (j : Int) = i
  · have hji : i.toNat = j := by omega
    have hlen : i.toNat < (l ++ List.replicate (i + 1 - listSize l).toNat void).length := by
      rw [List.length_append, List.length_replicate]
      omega
    rw [if_pos hji, if_pos hlen, if_pos hij]
  · have hji : i.toNat ≠ j := by omega
    rw [if_neg hji, if_neg hij, List.getElem?_append, List.getD_eq_getElem?_getD]
    by_cases hjl : j < l.length
    · rw [if_pos hjl, List.getElem?_eq_getElem hjl, Option.getD_some]
    · have hpad : j - l.length < (i + 1 - listSize l).toNat := by omega
      rw [if_neg hjl, List.getElem?_replicate, if_pos hpad, List.getElem?_eq_none (by omega), Option.getD_none]

end

/-! ### The assignment -/

/-- The elements of a list or a term. -/
def elements : YCPValue → Option (List YCPValue)
  | list l => some l
  | term _ l => some l
  | _ => none

/-- The list or the term with other elements. -/
def withElements : YCPValue → List YCPValue → YCPValue
  | term name _, l => term name l
  | _, l => list l

/-- What a null handle is stored as. -/
def stored (value : YCPValue) : YCPValue := if value.isNull then void else value

/-- `YSBracket::commit` at the indices that are left; none if it does not return. -/
def bracketCommit (current : YCPValue) (arg : List YCPValue) (value : YCPValue) : Option YCPValue :=
  match arg with
  | [] => some value
  | argval :: rest =>
    if current.isNull then some null
    else if argval.isNull then some null
    else
      match current with
      | list l =>
        match argval with
        | integer i =>
          match if rest.isEmpty then some (stored value)
              else bracketCommit (listValue l (narrow i)) rest value with
          | none => none
          | some val => if val.isNull then some null else (repSet l (narrow i) val).map list
        | _ => some null
      | map m =>
        match if rest.isEmpty then some (stored value) else bracketCommit (mapValue m argval) rest value with
        | none => none
        | some val => if val.isNull then some null else some (mapFunctionalAdd m argval val)
      | term name l =>
        match argval with
        | integer i =>
          match if rest.isEmpty then some (stored value)
              else bracketCommit (listValue l (narrow i)) rest value with
          | none => none
          | some val => if val.isNull then some null else (repSet l (narrow i) val).map (term name)
        | _ => some null
      | _ => some null

/-- `YSBracket::evaluate` with its operands evaluated: the variable after it. -/
def bracketAssign (var arg newvalue : YCPValue) : Option YCPValue :=
  match arg with
  | list indices =>
    (bracketCommit (if var.isNull then void else var) indices (stored newvalue)).map fun result =>
      if result.isNull then var else result
  | _ => some var

/-! ### Index paths -/

/-- The paths differ at some level. -/
def Apart : List YCPValue → List YCPValue → Prop
  | a :: p, b :: q => a ≠ b ∨ a = b ∧ Apart p q
  | _, _ => False

/-- The indices of lists and terms are in `[0, 2^31)`. -/
def InRange : YCPValue → List YCPValue → Prop
  | _, [] => True
  | current, a :: rest =>
    (∀ l i, elements current = some l → a = integer i → 0 ≤ i.toInt ∧ i.toInt < 2 ^ 31) ∧
      InRange (bracketStep current a) rest

/-- The other path ends in the padding of a list. -/
def Pads : YCPValue → List YCPValue → List YCPValue → Prop
  | current, a :: p, b :: q =>
    a = b ∧ Pads (bracketStep current a) p q ∨
      q = [] ∧ ∃ l i j, elements current = some l ∧ a = integer i ∧ b = integer j ∧
        listSize l ≤ j.toInt ∧ j.toInt < i.toInt
  | _, _, _ => False

/-- The elements of a list or a term that its size as an `int` hides below the index are nil. -/
def NilBehind (current argval : YCPValue) : Prop :=
  ∀ l i, elements current = some l → argval = integer i → ∀ j : ℕ, listSize l ≤ j → (j : Int) < i.toInt →
    ∀ v, l[j]? = some v → v = void

/-- No list or term on the way hides an element other than nil below the index. -/
def NothingHidden : YCPValue → List YCPValue → Prop
  | _, [] => True
  | current, a :: rest => NilBehind current a ∧ NothingHidden (bracketStep current a) rest

/-- The path reads what it read before, or the nil of the padding. -/
def Framed (current : YCPValue) (arg : List YCPValue) (r : YCPValue) (q : List YCPValue) : Prop :=
  (∀ default, bracketRead r q default = bracketRead current q default) ∨
    Pads current arg q ∧ ∀ default, bracketRead current q default = default ∧ bracketRead r q default = void

/-- The update is lawful: the new value is read back, and the other paths are framed. -/
structure Lawful (current : YCPValue) (arg : List YCPValue) (value r : YCPValue) : Prop where
  new : ∀ default, bracketRead r arg default = stored value
  frame : ∀ q, Apart arg q → Framed current arg r q

/-! ### Reading after an assignment -/

section

variable {l m : List YCPValue} {i j : Int64} {v current : YCPValue}

lemma narrow_eq {i : Int64} (h0 : 0 ≤ i.toInt) (h : i.toInt < 2 ^ 31) : narrow i = i.toInt := by
  rw [narrow, Int.bmod_eq_of_le]
  all_goals omega

lemma bracketElement_integer : bracketElement l (integer j) = listValue l j.toInt := by
  have hsize := listSize_lt l
  rw [bracketElement]
  by_cases hout : (j.toInt < 0 || listSize l ≤ j.toInt) = true
  · rw [if_pos hout, listValue, if_pos hout]
  · rw [if_neg hout]
    simp only [Bool.or_eq_true, decide_eq_true_eq, not_or] at hout
    rw [narrow_eq (by omega) (by omega)]

lemma listValue_of_outside {j : Int} (h : j < 0 ∨ listSize l ≤ j) : listValue l j = null := by
  rw [listValue, if_pos]
  simp only [Bool.or_eq_true, decide_eq_true_eq]
  exact h

lemma listValue_repSet_self {i : Int} (hi : 0 ≤ i) (h : repSet l i v = some m) : listValue m i = v := by
  have hsize := listSize_repSet hi h
  rw [listValue_of_lt hi (by omega), List.getD_eq_getElem?_getD, getElem?_repSet hi h (by omega)]
  rw [Option.getD_some, if_pos (by omega)]

/-- At another index there is what was there, or something appears between the old size and the new
element. -/
lemma listValue_repSet_of_ne {i j : Int} (hi : 0 ≤ i) (h : repSet l i v = some m) (hne : j ≠ i) :
    listValue m j = listValue l j ∨
      0 ≤ j ∧ listSize l ≤ j ∧ j < i ∧ listValue l j = null ∧ listValue m j = l.getD j.toNat void := by
  have hsize := listSize_repSet hi h
  by_cases hneg : j < 0
  · exact .inl (by rw [listValue_of_outside (.inl hneg), listValue_of_outside (.inl hneg)])
  by_cases hlarge : listSize m ≤ j
  · have hlarge' : listSize l ≤ j := by omega
    exact .inl (by rw [listValue_of_outside (.inr hlarge), listValue_of_outside (.inr hlarge')])
  have hread : listValue m j = l.getD j.toNat void := by
    rw [listValue_of_lt (by omega) (by omega), List.getD_eq_getElem?_getD, getElem?_repSet hi h (by omega)]
    rw [Option.getD_some, if_neg (by omega)]
  by_cases hold : listSize l ≤ j
  · exact .inr ⟨by omega, hold, by omega, listValue_of_outside (.inr hold), hread⟩
  · have hle := listSize_le l
    left
    rw [hread, listValue_of_lt (by omega) (by omega), List.getD_eq_getElem?_getD,
      List.getD_eq_getElem?_getD, List.getElem?_eq_getElem (by omega), Option.getD_some, Option.getD_some]

/-- The keys of maps are told by their type. -/
lemma isMapKey_eq (v : YCPValue) :
    v.isMapKey = (v.valuetype == 2 || v.valuetype == 4 || v.valuetype == 7) := by
  cases v <;> rfl

/-- A value of another kind than those of keys is in no map. -/
lemma mapValue_of_not_isMapKey {m : List (YCPValue × YCPValue)} (hm : ∀ e ∈ m, e.1.isMapKey = true)
    (hv : v.isMapKey = false) (hnull : v.isNull = false) : mapValue m v = null := by
  have hnone : m.find? (fun e => !keyLess e.1 v && !keyLess v e.1) = none := by
    rw [List.find?_eq_none]
    intro e he
    have hkey := hm e he
    have hne : e.1.valuetype ≠ v.valuetype := by
      intro heq
      rw [isMapKey_eq, heq, ← isMapKey_eq, hv] at hkey
      cases hkey
    have hkeynull := isNull_of_isMapKey hkey
    rw [keyLess, keyLess, compare_of_valuetype_ne hkeynull hnull hne,
      compare_of_valuetype_ne hnull hkeynull hne.symm]
    rcases Nat.lt_or_gt_of_ne hne with hlt | hlt
    · simp [hlt]
    · simp [hlt]
  rw [mapValue, hnone]

lemma mapValue_mapInsert_of_ne' {m : List (YCPValue × YCPValue)} (hm : ∀ e ∈ m, e.1.isMapKey = true)
    {key key' : YCPValue} (hkey : key.isMapKey = true) (hnull : key'.isNull = false) (h : key ≠ key')
    (value : YCPValue) : mapValue (mapInsert key value m) key' = mapValue m key' := by
  cases hkey' : key'.isMapKey with
  | true => exact mapValue_mapInsert_of_ne hm hkey hkey' h value
  | false =>
    have hinsert : ∀ e ∈ mapInsert key value m, e.1.isMapKey = true := by
      intro e he
      rcases mem_mapInsert he with rfl | ⟨e', he', hkeys, -⟩
      · exact hkey
      · rw [hkeys]
        exact hm e' he'
    rw [mapValue_of_not_isMapKey hinsert hkey' hnull, mapValue_of_not_isMapKey hm hkey' hnull]

lemma bracketStep_null (v : YCPValue) : bracketStep null v = null := by
  unfold bracketStep
  split <;> rfl

lemma bracketStep_elements (h : elements current = some l) : bracketStep current v = bracketElement l v := by
  cases v with
  | null => cases current <;> rfl
  | _ =>
    cases current <;> simp only [elements, reduceCtorEq, Option.some.injEq] at h
    all_goals rw [← h]; rfl

end

/-! ### One level of an assignment -/

/-- What is stored at the first index: the value, or the inner container with the value in it. -/
def Inner (current argval : YCPValue) (rest : List YCPValue) (value val : YCPValue) : Prop :=
  if rest = [] then val = stored value
  else bracketCommit (bracketStep current argval) rest value = some val

/-- The container with `val` stored at the first index. -/
inductive StoredAt (current argval val : YCPValue) : YCPValue → Prop where
  | element {l m : List YCPValue} {i : Int64} (hold : elements current = some l)
      (hindex : argval = integer i) (hset : repSet l (narrow i) val = some m) :
      StoredAt current argval val (withElements current m)
  | entry {m : List (YCPValue × YCPValue)} (hold : current = map m) (hkey : argval.isMapKey = true) :
      StoredAt current argval val (map (mapInsert argval val m))

section

variable {current argval value val r a b : YCPValue} {rest p q : List YCPValue}

lemma bracketCommit_null (w : YCPValue) (rest : List YCPValue) (value : YCPValue) :
    bracketCommit null (w :: rest) value = some null := by
  unfold bracketCommit
  rfl

lemma elements_withElements (current : YCPValue) (l : List YCPValue) :
    elements (withElements current l) = some l := by
  cases current <;> rfl

/-- An assignment to an element of a list or a term. -/
lemma bracketCommit_element {l : List YCPValue} {i : Int64} (hl : elements current = some l) :
    bracketCommit current (integer i :: rest) value =
      match if rest.isEmpty then some (stored value)
          else bracketCommit (listValue l (narrow i)) rest value with
      | none => none
      | some val => if val.isNull then some null else (repSet l (narrow i) val).map (withElements current) := by
  cases current <;> simp only [elements, reduceCtorEq, Option.some.injEq] at hl
  all_goals
    subst hl
    conv_lhs => unfold bracketCommit
    rfl

lemma bracketCommit_notInteger {l : List YCPValue} (hl : elements current = some l)
    (h : ∀ i, argval ≠ integer i) : bracketCommit current (argval :: rest) value = some null := by
  unfold bracketCommit
  cases argval with
  | integer i => exact absurd rfl (h i)
  | _ => cases current <;> first | rfl | cases hl

/-- A container after an assignment, from the value that was stored at the first index. -/
inductive Commits (value argval : YCPValue) (rest : List YCPValue) : YCPValue → YCPValue → Prop where
  | element {current val : YCPValue} {l m : List YCPValue} {i : Int64} (hold : elements current = some l)
      (hindex : argval = integer i) (hval : val.isNull = false)
      (hinner : (if rest.isEmpty then some (stored value)
        else bracketCommit (listValue l (narrow i)) rest value) = some val)
      (hset : repSet l (narrow i) val = some m) : Commits value argval rest current (withElements current m)
  | entry {val : YCPValue} {m : List (YCPValue × YCPValue)} (hkey : argval.isMapKey = true)
      (hval : val.isNull = false)
      (hinner : (if rest.isEmpty then some (stored value)
        else bracketCommit (mapValue m argval) rest value) = some val) :
      Commits value argval rest (map m) (map (mapInsert argval val m))

/-- What an assignment to a list or a term that does not fail has stored. -/
lemma commits_element {l : List YCPValue} {i : Int64} (hl : elements current = some l)
    (h : bracketCommit current (integer i :: rest) value = some r) (hr : r.isNull = false) :
    Commits value (integer i) rest current r := by
  rw [bracketCommit_element hl] at h
  generalize hinner : (if rest.isEmpty then some (stored value)
    else bracketCommit (listValue l (narrow i)) rest value) = o at h
  cases o with
  | none => cases h
  | some val =>
    dsimp only at h
    cases hval : val.isNull with
    | true =>
      rw [hval, if_pos rfl, Option.some.injEq] at h
      rw [← h] at hr
      cases hr
    | false =>
      rw [hval, if_neg Bool.false_ne_true] at h
      obtain ⟨m, hset, rfl⟩ := Option.map_eq_some_iff.mp h
      exact .element hl rfl hval hinner hset

lemma commits_of_bracketCommit (h : bracketCommit current (argval :: rest) value = some r)
    (hr : r.isNull = false) : Commits value argval rest current r := by
  have hnot : some null ≠ some r := by
    rintro ⟨⟩
    cases hr
  cases hl : elements current with
  | some l =>
    by_cases hargval : ∀ i, argval ≠ integer i
    · rw [bracketCommit_notInteger hl hargval] at h
      exact absurd h hnot
    · obtain ⟨i, rfl⟩ := not_forall_not.mp hargval
      exact commits_element hl h hr
  | none =>
    unfold bracketCommit at h
    split at h
    · exact absurd h hnot
    split at h
    · exact absurd h hnot
    cases current with
    | list _ => cases hl
    | term _ _ => cases hl
    | map m =>
      dsimp only at h
      generalize hinner : (if rest.isEmpty then some (stored value)
        else bracketCommit (mapValue m argval) rest value) = o at h
      cases o with
      | none => cases h
      | some val =>
        dsimp only at h
        cases hval : val.isNull with
        | true => rw [hval] at h; exact absurd h hnot
        | false =>
          rw [hval, if_neg Bool.false_ne_true, mapFunctionalAdd] at h
          cases hkey : argval.isMapKey with
          | false => rw [hkey] at h; exact absurd h hnot
          | true =>
            rw [hkey, if_pos rfl, Option.some.injEq] at h
            rw [← h]
            exact .entry hkey hval hinner
    | _ => exact absurd h hnot

/-- A new container is made from the value that is stored at the first index. -/
lemma storedAt_of_bracketCommit (hin : InRange current (argval :: rest))
    (h : bracketCommit current (argval :: rest) value = some r) (hr : r.isNull = false) :
    ∃ val, Inner current argval rest value val ∧ val.isNull = false ∧ StoredAt current argval val r := by
  have hstored {place val : YCPValue} (hplace : bracketStep current argval = place)
      (hval : (if rest.isEmpty then some (stored value) else bracketCommit place rest value) = some val) :
      Inner current argval rest value val := by
    unfold Inner
    rw [hplace]
    cases rest with
    | nil => exact (Option.some.inj hval).symm
    | cons w rest => exact hval
  cases commits_of_bracketCommit h hr with
  | @element _ val l m i hold hindex hval hinner hset =>
    obtain ⟨h0, h31⟩ := hin.1 l i hold hindex
    have hplace : bracketStep current argval = listValue l (narrow i) := by
      rw [hindex, bracketStep_elements hold, bracketElement_integer, narrow_eq h0 h31]
    exact ⟨val, hstored hplace hinner, hval, .element hold hindex hset⟩
  | @entry val m hkey hval hinner =>
    have hplace : bracketStep (map m) argval = mapValue m argval := by
      unfold bracketStep
      rw [isNull_of_isMapKey hkey, if_neg Bool.false_ne_true]
    exact ⟨val, hstored hplace hinner, hval, .entry rfl hkey⟩

/-- The new element is read back. -/
lemma bracketStep_storedAt (hcurrent : WellFormed current) (hin : InRange current (argval :: rest))
    (h : StoredAt current argval val r) : bracketStep r argval = val := by
  cases h with
  | @element l m i hold hindex hset =>
    obtain ⟨h0, h31⟩ := hin.1 l i hold hindex
    rw [narrow_eq h0 h31] at hset
    rw [bracketStep_elements (elements_withElements current m), hindex, bracketElement_integer]
    exact listValue_repSet_self h0 hset
  | @entry m hold hkey =>
    subst hold
    unfold bracketStep
    rw [isNull_of_isMapKey hkey, if_neg Bool.false_ne_true]
    exact mapValue_mapInsert_self (fun e he => (hcurrent.entries e he).1) hkey val

/-- What another index reads is unchanged, or appears behind the old end of a list. -/
lemma bracketStep_storedAt_of_ne (hcurrent : WellFormed current) (hin : InRange current (argval :: rest))
    (h : StoredAt current argval val r) (hne : argval ≠ b) :
    bracketStep r b = bracketStep current b ∨
      ∃ l i j, elements current = some l ∧ argval = integer i ∧ b = integer j ∧ listSize l ≤ j.toInt ∧
        0 ≤ j.toInt ∧ j.toInt < i.toInt ∧ bracketStep current b = null ∧
        bracketStep r b = l.getD j.toInt.toNat void := by
  cases h with
  | @element l m i hold hindex hset =>
    obtain ⟨h0, h31⟩ := hin.1 l i hold hindex
    rw [narrow_eq h0 h31] at hset
    rw [bracketStep_elements (elements_withElements current m), bracketStep_elements hold]
    cases b with
    | integer j =>
      rw [bracketElement_integer, bracketElement_integer]
      have hij : j.toInt ≠ i.toInt := fun hij => hne (by rw [hindex, Int64.toInt_inj.mp hij])
      rcases listValue_repSet_of_ne h0 hset hij with hsame | ⟨hj0, hsize, hlt, hold', hnew'⟩
      · exact .inl hsame
      · exact .inr ⟨l, i, j, hold, hindex, rfl, hsize, hj0, hlt, hold', hnew'⟩
    | _ => exact .inl rfl
  | @entry m hold hkey =>
    subst hold
    left
    unfold bracketStep
    cases hnull : b.isNull with
    | true => rfl
    | false =>
      rw [if_neg Bool.false_ne_true, if_neg Bool.false_ne_true]
      exact mapValue_mapInsert_of_ne' (fun e he => (hcurrent.entries e he).1) hkey hnull hne val

/-! ### All levels -/

lemma bracketRead_null (q : List YCPValue) (default : YCPValue) : bracketRead null q default = default := by
  cases q with
  | nil => rfl
  | cons b q =>
    unfold bracketRead bracketLoop
    rw [bracketStep_null]
    rfl

lemma bracketRead_cons (current a : YCPValue) (q : List YCPValue) (default : YCPValue) :
    bracketRead current (a :: q) default = bracketRead (bracketStep current a) q default := by
  rw [bracketRead, bracketLoop]
  cases hnull : (bracketStep current a).isNull with
  | true =>
    rw [eq_null_of_isNull hnull, bracketRead_null]
    rfl
  | false => rfl

lemma bracketRead_nil {v : YCPValue} (h : v.isNull = false) (default : YCPValue) :
    bracketRead v [] default = v := by
  rw [bracketRead, bracketLoop, h, if_neg Bool.false_ne_true]

lemma framed_cons (hstep : bracketStep r a = val) :
    Framed current (a :: p) r (a :: q) ↔ Framed (bracketStep current a) p val q := by
  have hpads : Pads current (a :: p) (a :: q) ↔ Pads (bracketStep current a) p q := by
    rw [Pads]
    constructor
    · rintro (⟨-, h⟩ | ⟨-, l, i, j, -, hi, hj, -, hlt⟩)
      · exact h
      · rw [hi, integer.injEq] at hj
        rw [hj] at hlt
        omega
    · exact fun h => .inl ⟨rfl, h⟩
  unfold Framed
  simp only [bracketRead_cons, hstep, hpads]

/-- The paths that leave the assigned one at this level. -/
lemma framed_of_ne_iff (hcurrent : WellFormed current) (hin : InRange current (a :: rest))
    (h : StoredAt current a val r) :
    (∀ b q, a ≠ b → Framed current (a :: rest) r (b :: q)) ↔ NilBehind current a := by
  constructor
  · intro hframe l i hl hi j hsize hlt v hv
    have hrange : j < 2 ^ 63 := by
      have := i.toInt_lt
      omega
    have hj : (Int64.ofInt j).toInt = j := Int64.toInt_ofInt_of_le (by omega) (by omega)
    have hne : a ≠ integer (Int64.ofInt j) := by
      rw [hi]
      intro heq
      rw [integer.inj heq, hj] at hlt
      omega
    have hnull : v.isNull = false := by
      have hwell : WellFormed v := by
        cases current <;> simp only [elements, reduceCtorEq, Option.some.injEq] at hl
        · exact hcurrent.elements v (hl ▸ List.mem_of_getElem? hv)
        · exact hcurrent.args v (hl ▸ List.mem_of_getElem? hv)
      exact hwell.notNull
    have hread : bracketStep current (integer (Int64.ofInt j)) = null := by
      rw [bracketStep_elements hl, bracketElement_integer, hj]
      exact listValue_of_outside (.inr hsize)
    have hnew : bracketStep r (integer (Int64.ofInt j)) = v := by
      cases h with
      | @element l' m i' hold hindex hset =>
        rw [hold, Option.some.injEq] at hl
        rw [hindex, integer.injEq] at hi
        subst hl hi
        obtain ⟨h0, h31⟩ := hin.1 l' i' hold hindex
        rw [narrow_eq h0 h31] at hset
        rw [bracketStep_elements (elements_withElements current m), bracketElement_integer, hj]
        have hsize' := listSize_repSet h0 hset
        rw [listValue_of_lt (by omega) (by omega), List.getD_eq_getElem?_getD, Int.toNat_natCast,
          getElem?_repSet h0 hset (by omega), Option.getD_some, if_neg (by omega),
          List.getD_eq_getElem?_getD, hv, Option.getD_some]
      | entry hold _ =>
        rw [hold] at hl
        cases hl
    rcases hframe _ [] hne with hsame | ⟨-, hpad⟩
    · have heq := hsame void
      rwa [bracketRead_cons, hnew, bracketRead_nil hnull, bracketRead_cons, hread, bracketRead_null] at heq
    · have heq := (hpad void).2
      rwa [bracketRead_cons, hnew, bracketRead_nil hnull] at heq
  · intro hnil b q hne
    rcases bracketStep_storedAt_of_ne hcurrent hin h hne with hsame |
      ⟨l, i, j, hl, hi, hb, hsize, hj0, hlt, hold, hnew⟩
    · left
      intro default
      rw [bracketRead_cons, hsame, bracketRead_cons]
    · have hvoid : l.getD j.toInt.toNat void = void := by
        rw [List.getD_eq_getElem?_getD]
        cases hget : l[j.toInt.toNat]? with
        | none => rfl
        | some v => exact hnil l i hl hi j.toInt.toNat (by omega) (by omega) v hget
      rw [hvoid] at hnew
      cases q with
      | nil =>
        right
        refine ⟨.inr ⟨rfl, l, i, j, hl, hi, hb, hsize, hlt⟩, fun default => ?_⟩
        rw [bracketRead_cons, bracketRead_cons, hold, hnew]
        exact ⟨rfl, rfl⟩
      | cons c q =>
        left
        intro default
        have hstep : bracketStep void c = null := by
          unfold bracketStep
          split <;> rfl
        rw [bracketRead_cons, hnew, bracketRead_cons, hstep, bracketRead_null, bracketRead_cons, hold,
          bracketRead_null]

/-- The lawfulness of an update level by level. -/
lemma lawful_cons_iff (hcurrent : WellFormed current) (hin : InRange current (a :: rest))
    (h : StoredAt current a val r) (hval : val.isNull = false) (hinner : Inner current a rest value val) :
    Lawful current (a :: rest) value r ↔
      NilBehind current a ∧ (rest ≠ [] → Lawful (bracketStep current a) rest value val) := by
  have hstep := bracketStep_storedAt hcurrent hin h
  rw [← framed_of_ne_iff hcurrent hin h]
  constructor
  · intro hlaw
    refine ⟨fun b q hne => hlaw.frame (b :: q) (.inl hne), fun _ => ⟨fun default => ?_, fun q hq => ?_⟩⟩
    · have hnew := hlaw.new default
      rwa [bracketRead_cons, hstep] at hnew
    · exact (framed_cons hstep).mp (hlaw.frame (a :: q) (.inr ⟨rfl, hq⟩))
  · rintro ⟨hhead, htail⟩
    refine ⟨fun default => ?_, fun q hq => ?_⟩
    · rw [bracketRead_cons, hstep]
      by_cases hrest : rest = []
      · rw [Inner, if_pos hrest] at hinner
        rw [hrest, bracketRead_nil hval, hinner]
      · exact (htail hrest).new default
    · cases q with
      | nil => exact hq.elim
      | cons b q =>
        rcases hq with hne | ⟨rfl, hq⟩
        · exact hhead b q hne
        · have hrest : rest ≠ [] := by
            rintro rfl
            exact hq.elim
          exact (framed_cons hstep).mpr ((htail hrest).frame q hq)

/-- The inner container exists when something was stored in it. -/
lemma notNull_of_inner (hrest : rest ≠ []) (hval : val.isNull = false)
    (h : bracketCommit (bracketStep current a) rest value = some val) :
    (bracketStep current a).isNull = false := by
  cases hnull : (bracketStep current a).isNull with
  | false => rfl
  | true =>
    obtain ⟨b, rest', rfl⟩ := List.exists_cons_of_ne_nil hrest
    rw [eq_null_of_isNull hnull, bracketCommit_null, Option.some.injEq] at h
    rw [← h] at hval
    cases hval

lemma lawful_iff (hcurrent : WellFormed current) {arg : List YCPValue} (harg : arg ≠ [])
    (hin : InRange current arg) (h : bracketCommit current arg value = some r) (hr : r.isNull = false) :
    Lawful current arg value r ↔ NothingHidden current arg := by
  induction arg generalizing current r with
  | nil => exact absurd rfl harg
  | cons a rest ih =>
    obtain ⟨val, hinner, hval, hstored⟩ := storedAt_of_bracketCommit hin h hr
    rw [lawful_cons_iff hcurrent hin hstored hval hinner, NothingHidden]
    refine and_congr_right fun _ => ?_
    by_cases hrest : rest = []
    · rw [hrest]
      exact iff_of_true (fun hne => absurd rfl hne) trivial
    · rw [Inner, if_neg hrest] at hinner
      have hnotNull := notNull_of_inner hrest hval hinner
      have hwell := (sound_bracketStep hcurrent a).wellFormed hnotNull
      rw [← ih hwell hrest hin.2 hinner hval]
      exact ⟨fun hlaw => hlaw hrest, fun hlaw _ => hlaw⟩

end

end YastCore.YCPValue
