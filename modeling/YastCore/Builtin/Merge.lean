import YastCore.Lib.CharString
import YastCore.Value.Index

/-!
# Splitting and merging strings

`splitstring` and `mergestring`. A handle is `none` when it is the null handle; a builtin that does not
come to an end, or calls a method through a null handle, is `none` outside of that.
-/

namespace YastCore

open CharString
open YCPValue (string listSize listValue visited unvisited)

/-! ### The builtins -/

/-- The loop of `splitstring`, with the start position and the list so far. -/
def splitLoop (ss sc : Text) : Nat → Nat → List Text → Option (List Text)
  | 0, _, _ => none
  | fuel + 1, spos, ret =>
    match findFirstOf ss sc spos with
    | none => some (ret ++ [ss.drop spos])
    | some epos =>
      let ret' := ret ++ [if spos = epos then [] else substr ss spos (epos - spos)]
      if epos + 1 = ss.length then some (ret' ++ [[]]) else splitLoop ss sc fuel (epos + 1) ret'

def lSplitstring : Option Text → Option Text → Option (Option (List YCPValue))
  | some s, some c =>
    if s.isEmpty || c.isEmpty then some (some [])
    else (splitLoop s c (s.length + 1) 0 []).map fun ret => some (ret.map string)
  | _, _ => some none

/-- One turn of the loop of `mergestring`, at the element `vv`. -/
def mergeStep (c : Text) (i : Nat) (result : Text) : YCPValue → Option Text
  | .null => none
  | string vs => some (if i = 0 then result ++ vs else result ++ c ++ vs)
  | _ => some result

/-- The subscript is an `int`, as the size is that ends the loop. -/
def mergeLoop (l : List YCPValue) (c : Text) (k : Nat) : Option Text :=
  (List.range k).foldlM (fun result i => mergeStep c i result (listValue l i)) []

def sMergestring : Option (List YCPValue) → Option Text → Option (Option Text)
  | some l, some s => if l.isEmpty then some (some []) else (mergeLoop l s (listSize l).toNat).map some
  | _, _ => some none

/-! ### The loop of `splitstring` -/

lemma findFirstOf_drop (ss sc : Text) (spos : Nat) :
    findFirstOf ss sc spos = ((ss.drop spos).findIdx? fun c => decide (c ∈ sc)).map (· + spos) := rfl

/-- From any position on, the loop adds the pieces of what is left. -/
theorem splitLoop_eq (ss sc : Text) (fuel spos : Nat) (ret : List Text) (hpos : spos ≤ ss.length)
    (hfuel : ss.length < fuel + spos) :
    splitLoop ss sc fuel spos ret = some (ret ++ (ss.drop spos).splitOnP fun c => decide (c ∈ sc)) := by
  induction fuel generalizing spos ret with
  | zero => omega
  | succ fuel ih =>
    rw [splitLoop, findFirstOf_drop]
    cases hfirst : (ss.drop spos).findIdx? fun c => decide (c ∈ sc) with
    | none =>
      have hno : ∀ c ∈ ss.drop spos, decide (c ∈ sc) = false := by simpa using hfirst
      rw [Option.map_none, List.splitOnP_eq_singleton hno]
    | some i =>
      obtain ⟨a, c, b, hsplit, rfl, hc, ha⟩ := split_of_findIdx?_eq_some hfirst
      have hlen := congrArg List.length hsplit
      rw [List.length_drop, List.length_append, List.length_cons] at hlen
      have hpiece : (if spos = a.length + spos then []
          else substr ss spos (a.length + spos - spos)) = a := by
        by_cases hempty : spos = a.length + spos
        · rw [if_pos hempty]
          exact (List.length_eq_zero_iff.mp (by omega)).symm
        · rw [if_neg hempty, Nat.add_sub_cancel, substr, hsplit, List.take_left]
      have hrest : ss.drop (a.length + spos + 1) = b := by
        have hadd : a.length + spos + 1 = spos + (a.length + 1) := by omega
        rw [hadd, ← List.drop_drop, hsplit, ← List.drop_drop, List.drop_left]
        rfl
      rw [Option.map_some]
      dsimp only
      rw [hpiece, hsplit, List.splitOnP_append_cons_of_forall_mem ha c hc]
      by_cases hend : a.length + spos + 1 = ss.length
      · have hb : b = [] := List.length_eq_zero_iff.mp (by omega)
        rw [if_pos hend, hb]
        simp
      · rw [if_neg hend, ih _ _ (by omega) (by omega), hrest]
        simp

/-- `splitstring` cuts at each delimiter and keeps empty pieces. -/
theorem lSplitstring_eq {s c : Text} (hs : s ≠ []) (hc : c ≠ []) :
    lSplitstring (some s) (some c) =
      some (some ((s.splitOnP fun b => decide (b ∈ c)).map string)) := by
  have hsne : s.isEmpty = false := by simpa using hs
  have hcne : c.isEmpty = false := by simpa using hc
  rw [lSplitstring, hsne, hcne, splitLoop_eq s c _ 0 [] (Nat.zero_le _) (by omega)]
  simp

/-! ### The loop of `mergestring` -/

def stringText : YCPValue → Option Text
  | string t => some t
  | _ => none

/-- The texts of the string elements. -/
def stringsOf (l : List YCPValue) : List Text := l.filterMap stringText

/-- The glue that is put before the first string when another element stands before it. -/
def leadingGlue (g : Text) : List YCPValue → Text
  | [] => []
  | v :: l => if (stringText v).isSome || (stringsOf l).isEmpty then [] else g

def merged (g : Text) (l : List YCPValue) : Text := leadingGlue g l ++ g.intercalate (stringsOf l)

lemma eq_string_of_stringText {v : YCPValue} {t : Text} (h : stringText v = some t) : v = string t := by
  cases v <;> simp_all [stringText]

lemma stringsOf_cons_of_none {v : YCPValue} (hv : stringText v = none) (l : List YCPValue) :
    stringsOf (v :: l) = stringsOf l := List.filterMap_cons_none hv

lemma stringsOf_append (l m : List YCPValue) : stringsOf (l ++ m) = stringsOf l ++ stringsOf m :=
  List.filterMap_append

lemma stringsOf_map_string (l : List Text) : stringsOf (l.map string) = l := by
  induction l with
  | nil => rfl
  | cons t l ih =>
    rw [List.map_cons, stringsOf, List.filterMap_cons]
    simp only [stringText]
    exact congrArg (t :: ·) ih

/-- A string is added with its glue, wherever it is not the first element. -/
lemma merged_append_string (g t : Text) (l : List YCPValue) :
    merged g (l ++ [string t]) = if l = [] then t else merged g l ++ g ++ t := by
  have hone : stringsOf [string t] = [t] := rfl
  cases l with
  | nil => simp [merged, leadingGlue, stringText, hone]
  | cons v l =>
    have hstrings : stringsOf (v :: l) ++ [t] = stringsOf (v :: l ++ [string t]) := by
      rw [stringsOf_append, hone]
    rw [if_neg (List.cons_ne_nil v l), merged, merged, ← hstrings]
    by_cases hnone : stringsOf (v :: l) = []
    · have hv : stringText v = none := List.filterMap_eq_nil_iff.mp hnone v List.mem_cons_self
      have hl : stringsOf l = [] :=
        List.filterMap_eq_nil_iff.mpr fun w hw =>
          List.filterMap_eq_nil_iff.mp hnone w (List.mem_cons_of_mem v hw)
      rw [hnone]
      simp [leadingGlue, hv, hl, stringsOf_append, hone]
    · have hlead : leadingGlue g (v :: l ++ [string t]) = leadingGlue g (v :: l) := by
        cases hv : stringText v with
        | some u => simp [leadingGlue, hv]
        | none =>
          have hl : stringsOf l ≠ [] := by
            intro hl
            exact hnone ((stringsOf_cons_of_none hv l).trans hl)
          simp [leadingGlue, hv, hl, stringsOf_append]
      rw [hlead, CharString.intercalate_append hnone]
      simp

lemma merged_append_other (g : Text) (l : List YCPValue) {v : YCPValue} (hv : stringText v = none) :
    merged g (l ++ [v]) = merged g l := by
  have hone : stringsOf [v] = [] := stringsOf_cons_of_none hv []
  have hstrings : stringsOf (l ++ [v]) = stringsOf l := by rw [stringsOf_append, hone, List.append_nil]
  rw [merged, merged, hstrings]
  cases l with
  | nil => simp [leadingGlue, hv, stringsOf]
  | cons w l => simp [leadingGlue, stringsOf_append, hone]

lemma mergeStep_eq (g result : Text) (i : Nat) (v : YCPValue) :
    mergeStep g i result v =
      if v.isNull then none
      else some (match stringText v with
        | some t => if i = 0 then result ++ t else result ++ g ++ t
        | none => result) := by
  cases v <;> rfl

/-- The result so far is what the elements so far make. -/
theorem mergeLoop_take (l : List YCPValue) (g : Text) (k : Nat) (hk : k ≤ (listSize l).toNat) :
    mergeLoop l g k =
      if (l.take k).any YCPValue.isNull then none else some (merged g (l.take k)) := by
  induction k with
  | zero => rfl
  | succ k ih =>
    have hlen : k < l.length := by
      have hsize := YCPValue.listSize_le l
      omega
    have hstep : mergeLoop l g (k + 1) =
        (mergeLoop l g k).bind fun result => mergeStep g k result l[k] := by
      rw [mergeLoop, List.range_succ, List.foldlM_append,
        ← YCPValue.listValue_of_getElem? hk (List.getElem?_eq_getElem hlen)]
      simp [mergeLoop]
    rw [hstep, ih (by omega), List.take_succ_eq_append_getElem hlen, List.any_append]
    by_cases hnull : (l.take k).any YCPValue.isNull = true
    · simp [hnull]
    · simp only [Bool.not_eq_true] at hnull
      have hempty : l.take k = [] ↔ k = 0 := by
        rw [← List.length_eq_zero_iff, List.length_take]
        omega
      simp only [hnull, Bool.false_eq_true, if_false, Option.bind_some, mergeStep_eq, Bool.false_or]
      by_cases hv : l[k].isNull = true
      · simp [hv]
      · simp only [Bool.not_eq_true] at hv
        cases htext : stringText l[k] with
        | none =>
          rw [merged_append_other g _ htext]
          simp [hv]
        | some t =>
          simp only [eq_string_of_stringText htext, merged_append_string, hempty]
          by_cases hk0 : k = 0
          · simp [hk0, YCPValue.isNull, merged, leadingGlue, stringsOf]
          · simp [hk0, YCPValue.isNull]

theorem sMergestring_eq (l : List YCPValue) (g : Text) :
    sMergestring (some l) (some g) =
      if (visited l).any YCPValue.isNull then none else some (some (merged g (visited l))) := by
  rw [sMergestring]
  cases l with
  | nil => rfl
  | cons v l =>
    rw [List.isEmpty_cons, if_neg Bool.false_ne_true, mergeLoop_take _ _ _ (Nat.le_refl _)]
    split <;> simp_all [visited]

/-! ### Mixed lists -/

/-- The glue is empty, or the first element is a string, or there is no string. -/
def NoStrayGlue (g : Text) (l : List YCPValue) : Prop :=
  g = [] ∨ stringsOf l = [] ∨ ∃ t, l.head? = some (string t)

/-- What the strings behind the ones shown add to the text. -/
def AddsNothing (g : Text) (shown hidden : List Text) : Prop :=
  hidden = [] ∨ (shown = [] ∧ hidden = [[]]) ∨ (g = [] ∧ ∀ t ∈ hidden, t = [])

/-- No null handle is in the way, the first element is a string if glue is to be seen, and the loop does
not stop before the last string. Past 2^31 elements it can stop early by an accident of the text. -/
def GlueBetween (l : List YCPValue) (g : Text) : Prop :=
  (∀ v ∈ visited l, v.isNull = false) ∧
  ((NoStrayGlue g (visited l) ∧ AddsNothing g (stringsOf (visited l)) (stringsOf (unvisited l))) ∨
    (¬NoStrayGlue g (visited l) ∧ stringsOf (unvisited l) = [[]] ∧
      g ++ g.intercalate (stringsOf (visited l)) = g.intercalate (stringsOf (visited l)) ++ g))

lemma stringsOf_visited_append (l : List YCPValue) :
    stringsOf (visited l) ++ stringsOf (unvisited l) = stringsOf l := by
  rw [← stringsOf_append, visited, unvisited, List.take_append_drop]

lemma leadingGlue_of_noStrayGlue {g : Text} {l : List YCPValue} (h : NoStrayGlue g l) :
    leadingGlue g l = [] := by
  cases l with
  | nil => rfl
  | cons v l =>
    cases hv : stringText v with
    | some t => simp [leadingGlue, hv]
    | none =>
      rcases h with rfl | hnone | ⟨t, ht⟩
      · simp [leadingGlue]
      · rw [stringsOf_cons_of_none hv] at hnone
        simp [leadingGlue, hnone]
      · obtain rfl : v = string t := by simpa using ht
        simp [stringText] at hv

lemma leadingGlue_of_stray {g : Text} {l : List YCPValue} (h : ¬NoStrayGlue g l) :
    leadingGlue g l = g := by
  simp only [NoStrayGlue, not_or, not_exists] at h
  cases l with
  | nil => exact absurd rfl h.2.1
  | cons v l =>
    cases hv : stringText v with
    | some t => exact absurd (congrArg some (eq_string_of_stringText hv)) (h.2.2 t)
    | none =>
      have hl : stringsOf l ≠ [] := stringsOf_cons_of_none hv l ▸ h.2.1
      simp [leadingGlue, hv, hl]

/-- When the text of the strings shown is the text of all. -/
lemma intercalate_eq_append_iff (g : Text) (shown hidden : List Text) :
    g.intercalate shown = g.intercalate (shown ++ hidden) ↔ AddsNothing g shown hidden := by
  by_cases hshown : shown = []
  · subst hshown
    rw [List.nil_append, List.intercalate_nil, eq_comm, CharString.intercalate_eq_nil_iff, AddsNothing]
    simp
  · rw [CharString.intercalate_append hshown, List.self_eq_append_right, AddsNothing,
      CharString.flatMap_glue_eq_nil_iff]
    simp [hshown]

/-- Glue in front of the text is only made up for by glue at its end. -/
lemma glue_append_eq_iff {g : Text} (hg : g ≠ []) {shown : List Text} (hshown : shown ≠ [])
    (hidden : List Text) :
    g ++ g.intercalate shown = g.intercalate (shown ++ hidden) ↔
      hidden = [[]] ∧ g ++ g.intercalate shown = g.intercalate shown ++ g := by
  rw [CharString.intercalate_append hshown]
  constructor
  · intro h
    have hlen := congrArg List.length h
    rw [List.length_append, List.length_append, Nat.add_comm] at hlen
    have hhidden := (CharString.length_flatMap_glue_eq_iff hg).mp (Nat.add_left_cancel hlen).symm
    rw [hhidden] at h
    exact ⟨hhidden, by simpa using h⟩
  · rintro ⟨rfl, h⟩
    simpa using h

/-- The strings are merged, with the glue between them and nowhere else, exactly for these lists. -/
theorem mergestring_joins_iff (l : List YCPValue) (g : Text) :
    sMergestring (some l) (some g) = some (some (g.intercalate (stringsOf l))) ↔ GlueBetween l g := by
  rw [sMergestring_eq, GlueBetween, ← stringsOf_visited_append]
  by_cases hnull : (visited l).any YCPValue.isNull = true
  · rw [if_pos hnull]
    obtain ⟨v, hv, hisNull⟩ := List.any_eq_true.mp hnull
    exact iff_of_false (by simp) fun h => by simp [h.1 v hv] at hisNull
  · have hvisited : ∀ v ∈ visited l, v.isNull = false := by simpa using hnull
    rw [if_neg hnull, Option.some.injEq, Option.some.injEq, merged, and_iff_right hvisited]
    by_cases hstray : NoStrayGlue g (visited l)
    · rw [leadingGlue_of_noStrayGlue hstray, List.nil_append, intercalate_eq_append_iff]
      simp [hstray]
    · have hne : g ≠ [] ∧ stringsOf (visited l) ≠ [] :=
        ⟨fun hg => hstray (.inl hg), fun hs => hstray (.inr (.inl hs))⟩
      rw [leadingGlue_of_stray hstray, glue_append_eq_iff hne.1 hne.2]
      simp [hstray]

/-- Below 2^31 elements only null handles and a first element that is no string are in the way. -/
lemma glueBetween_iff_of_length_lt {l : List YCPValue} (h : l.length < 2 ^ 31) (g : Text) :
    GlueBetween l g ↔ (∀ v ∈ l, v.isNull = false) ∧ NoStrayGlue g l := by
  obtain ⟨hvisited, hunvisited⟩ := YCPValue.visited_of_length_lt h
  have hnone : stringsOf [] = [] := rfl
  rw [GlueBetween, hvisited, hunvisited, hnone, AddsNothing]
  simp

/-- `mergestring ([1, "a", 3], ".")` is ".a". -/
theorem mergestring_stray_glue :
    ¬∀ l g, sMergestring (some l) (some g) = some (some (g.intercalate (stringsOf l))) := by
  intro h
  have hvalue := h [.integer 1, string [97], .integer 3] [46]
  rw [sMergestring_eq] at hvalue
  cases hvalue

/-! ### Splitting and merging at one character -/

lemma visited_map_string (l : List Text) :
    visited (l.map string) = (l.take (listSize (l.map string)).toNat).map string := by
  rw [visited, List.map_take]

/-- A list of strings is joined as far as the loop comes. -/
lemma sMergestring_map_string (l : List Text) (g : Text) :
    sMergestring (some (l.map string)) (some g) =
      some (some (g.intercalate (l.take (listSize (l.map string)).toNat))) := by
  rw [sMergestring_eq, visited_map_string]
  generalize l.take (listSize (l.map string)).toNat = shown
  have hnull : (shown.map string).any YCPValue.isNull = false := by
    rw [List.any_eq_false]
    intro v hv
    obtain ⟨t, -, rfl⟩ := List.mem_map.mp hv
    simp [YCPValue.isNull]
  have hlead : leadingGlue g (shown.map string) = [] := by
    cases shown <;> simp [leadingGlue, stringText]
  rw [if_neg (by simp [hnull]), merged, hlead, stringsOf_map_string, List.nil_append]

lemma length_le_size_iff (l : List Text) :
    l.length ≤ (listSize (l.map string)).toNat ↔ l.length < 2 ^ 31 := by
  cases l with
  | nil => exact iff_of_true (Nat.zero_le _) (by decide)
  | cons t l =>
    have hle := YCPValue.listSize_le ((t :: l).map string)
    have hiff := YCPValue.listSize_eq_length_iff ((t :: l).map string)
    rw [List.length_map, List.length_cons] at hle hiff
    rw [List.length_cons, ← hiff]
    generalize listSize ((t :: l).map string) = size at hle
    omega

lemma lSplitstring_singleton {s : Text} (hs : s ≠ []) (c : UInt8) :
    lSplitstring (some s) (some [c]) = some (some ((s.splitOn c).map string)) := by
  have hp : (fun b => decide (b ∈ [c])) = (· == c) := by
    funext b
    rw [Bool.eq_iff_iff]
    simp
  rw [lSplitstring_eq hs (List.cons_ne_nil c []), hp, List.splitOn_eq_splitOnP]

lemma length_splitOn (s : Text) (c : UInt8) : (s.splitOn c).length = s.count c + 1 := by
  induction s with
  | nil => rfl
  | cons b s ih =>
    rw [List.splitOn_cons_eq_if_modifyHead, List.count_cons]
    by_cases hb : (b == c) = true
    · rw [if_pos hb, if_pos hb, List.length_cons, ih]
    · rw [if_neg hb, if_neg hb, List.length_modifyHead, ih]

/-- What `mergestring` makes of the pieces of a text. -/
def splitMerge (s : Text) (c : UInt8) : Option (Option Text) :=
  (lSplitstring (some s) (some [c])).bind fun l => sMergestring l (some [c])

/-- What `splitstring` makes of a merged list. -/
def mergeSplit (l : List Text) (c : UInt8) : Option (Option (List YCPValue)) :=
  (sMergestring (some (l.map string)) (some [c])).bind fun s => lSplitstring s (some [c])

/-- The text comes back unless it has too many pieces. -/
lemma splitMerge_eq_iff {s : Text} (hs : s ≠ []) (c : UInt8) :
    splitMerge s c = some (some s) ↔ s.count c + 1 < 2 ^ 31 := by
  have hjoin : [c].intercalate (s.splitOn c) = s := List.intercalate_splitOn c
  rw [splitMerge, lSplitstring_singleton hs, Option.bind_some, sMergestring_map_string, ← length_splitOn,
    ← length_le_size_iff, Option.some.injEq, Option.some.injEq]
  generalize s.splitOn c = pieces at hjoin
  generalize (listSize (pieces.map string)).toNat = size
  constructor
  · intro h
    have hcut : [c].intercalate (pieces.take size) =
        [c].intercalate (pieces.take size ++ pieces.drop size) := by
      rw [h, List.take_append_drop, hjoin]
    rcases (intercalate_eq_append_iff _ _ _).mp hcut with hdrop | ⟨hnil, hone⟩ | ⟨hglue, -⟩
    · exact List.drop_eq_nil_iff.mp hdrop
    · rw [hnil, List.intercalate_nil] at h
      exact absurd h.symm hs
    · exact absurd hglue (List.cons_ne_nil c [])
  · intro h
    rw [List.take_of_length_le h, hjoin]

/-- A list of pieces comes back unless it has too many. -/
lemma mergeSplit_eq_iff {l : List Text} {c : UInt8} (hne : l ≠ []) (hc : ∀ t ∈ l, c ∉ t)
    (hempty : l ≠ [[]]) :
    mergeSplit l c = some (some (l.map string)) ↔ l.length < 2 ^ 31 := by
  rw [mergeSplit, sMergestring_map_string, Option.bind_some, ← length_le_size_iff]
  generalize (listSize (l.map string)).toNat = size
  by_cases hnil : [c].intercalate (l.take size) = []
  · have hsplit : lSplitstring (some []) (some [c]) = some (some []) := rfl
    rw [hnil, hsplit]
    refine iff_of_false (by simpa [eq_comm] using hne) ?_
    intro hsize
    rw [List.take_of_length_le hsize, CharString.intercalate_eq_nil_iff] at hnil
    rcases hnil with hnil | hnil | ⟨hglue, -⟩
    · exact hne hnil
    · exact hempty hnil
    · exact List.cons_ne_nil c [] hglue
  · have htake : l.take size ≠ [] := fun h => hnil (by rw [h, List.intercalate_nil])
    rw [lSplitstring_singleton hnil,
      List.splitOn_intercalate c (fun t ht => hc t (List.mem_of_mem_take ht)) htake]
    rw [Option.some.injEq, Option.some.injEq, List.map_inj_right (fun _ _ h => YCPValue.string.inj h),
      List.take_eq_self_iff]

/-- `splitstring` and `mergestring` undo one another exactly below 2^31 pieces. -/
theorem splitstring_mergestring_iff (c : UInt8) :
    (∀ s : Text, s ≠ [] → (splitMerge s c = some (some s) ↔ s.count c + 1 < 2 ^ 31)) ∧
      ∀ l : List Text, l ≠ [] → (∀ t ∈ l, c ∉ t) → l ≠ [[]] →
        (mergeSplit l c = some (some (l.map string)) ↔ l.length < 2 ^ 31) :=
  ⟨fun _ hs => splitMerge_eq_iff hs c, fun _ hne hc hempty => mergeSplit_eq_iff hne hc hempty⟩

/-- `/a/` and `["", "a", ""]` -/
theorem splitstring_mergestring_slash :
    (splitMerge [47, 97, 47] 47 = some (some [47, 97, 47]) ↔ List.count 47 [47, 97, (47 : UInt8)] + 1 < 2 ^ 31) ∧
      (mergeSplit [[], [97], []] 47 = some (some ([[], [97], []].map string)) ↔
        [[], [97], ([] : Text)].length < 2 ^ 31) :=
  ⟨(splitstring_mergestring_iff 47).1 [47, 97, 47] (by decide),
    (splitstring_mergestring_iff 47).2 [[], [97], []] (by decide) (by decide) (by decide)⟩

/-- 2^31 slashes -/
theorem splitstring_mergestring_long :
    ¬∀ (s : Text) (c : UInt8), s ≠ [] → splitMerge s c = some (some s) := by
  intro h
  obtain ⟨n, hn⟩ : ∃ n : Nat, 2 ^ 31 ≤ n := ⟨2 ^ 31, Nat.le_refl _⟩
  have hne : List.replicate n (47 : UInt8) ≠ [] := by
    rw [Ne, List.replicate_eq_nil_iff]
    omega
  have hlong := (splitMerge_eq_iff hne 47).mp (h (List.replicate n 47) 47 hne)
  rw [List.count_replicate_self] at hlong
  omega

end YastCore
