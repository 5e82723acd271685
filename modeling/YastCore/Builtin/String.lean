import YastCore.Lib.CharString
import YastCore.Lib.Utf8
import YastCore.Value.Basic

/-!
# String builtins

A string is handled byte by byte when it is all ASCII, and as wide characters otherwise. Each builtin
is written with the outcome of that test as a first argument `fast`; the null handle is `none`.
-/

namespace YastCore

open CharString YCPValue

/-- `YCPStringRep::is_ascii`. -/
def isAscii (s : Text) : Bool := s.all fun c => c < 128

/-- `recode_all` with an exact `iconv`. -/
def utf82wchar (s : Text) : List Char := Utf8.decode s

def wchar2utf8 (s : List Char) : Text := Utf8.encode s

/-- What the conversion from and to UTF-8 leaves alone. -/
def ValidUtf8 (s : Text) : Prop := ∃ cs, s = Utf8.encode cs

/-! ### One branch, over bytes or wide characters -/

section Branch

variable {α : Type} [DecidableEq α]

/-- `nil` for `npos`. -/
def ycpPosition : Option Nat → YCPValue
  | none => void
  | some pos => integer (Int64.ofNat pos)

def sizeBranch (ss : List α) : YCPValue := integer (Int64.ofNat ss.length)

/-- The offset is converted to `size_type`; `start < 0` is never true of one. -/
def substring1Branch (ycpString : List α → YCPValue) (ss : List α) (i1 : Int64) : YCPValue :=
  let start := i1.toUInt64.toNat
  if ss.length < start then string [] else ycpString (substr ss start ss.length)

def substring2Branch (ycpString : List α → YCPValue) (ss : List α) (i1 i2 : Int64) : YCPValue :=
  let start := i1.toUInt64.toNat
  let length := i2.toUInt64.toNat
  if ss.length < start then string [] else ycpString (substr ss start length)

/-- The loop of `deletechars`; `none` if it did not end. -/
def removecharsBranch (ycpString : List α → YCPValue) (ss included : List α) : Option YCPValue :=
  (eraseRuns (fun c => decide (c ∈ included)) (ss.length + 1) ss 0).map ycpString

def filtercharsBranch (ycpString : List α → YCPValue) (ss included : List α) : Option YCPValue :=
  (eraseRuns (fun c => decide (c ∉ included)) (ss.length + 1) ss 0).map ycpString

end Branch

/-! ### The builtins -/

/-- `YCPString (wstring)`. -/
def ycpWstring (s : List Char) : YCPValue := string (wchar2utf8 s)

def sSizeOn (fast : Bool) : Option Text → YCPValue
  | some s => if fast then sizeBranch s else sizeBranch (utf82wchar s)
  | none => null

def sSubstring1On (fast : Bool) : Option Text → Option Int64 → YCPValue
  | some s, some i1 =>
    if fast then substring1Branch string s i1 else substring1Branch ycpWstring (utf82wchar s) i1
  | _, _ => null

def sSubstring2On (fast : Bool) : Option Text → Option Int64 → Option Int64 → YCPValue
  | some s, some i1, some i2 =>
    if fast then substring2Branch string s i1 i2
    else substring2Branch ycpWstring (utf82wchar s) i1 i2
  | _, _, _ => null

def sSearchOn (fast : Bool) : Option Text → Option Text → YCPValue
  | some s1, some s2 =>
    if fast then ycpPosition (find s1 s2)
    else ycpPosition (find (utf82wchar s1) (utf82wchar s2))
  | _, _ => null

def sFindfirstofOn (fast : Bool) : Option Text → Option Text → YCPValue
  | some s1, some s2 =>
    if fast then ycpPosition (findFirstOf s1 s2 0)
    else ycpPosition (findFirstOf (utf82wchar s1) (utf82wchar s2) 0)
  | _, _ => null

/-- The empty string has its answer before the test. -/
def sFindfirstnotofOn (fast : Bool) : Option Text → Option Text → YCPValue
  | some s1, some s2 =>
    if s1.isEmpty then integer 0
    else if fast then ycpPosition (findFirstNotOf s1 s2 0)
    else ycpPosition (findFirstNotOf (utf82wchar s1) (utf82wchar s2) 0)
  | _, _ => null

def sFindlastofOn (fast : Bool) : Option Text → Option Text → YCPValue
  | some s1, some s2 =>
    if fast then ycpPosition (findLastOf s1 s2)
    else ycpPosition (findLastOf (utf82wchar s1) (utf82wchar s2))
  | _, _ => null

def sFindlastnotofOn (fast : Bool) : Option Text → Option Text → YCPValue
  | some s1, some s2 =>
    if fast then ycpPosition (findLastNotOf s1 s2)
    else ycpPosition (findLastNotOf (utf82wchar s1) (utf82wchar s2))
  | _, _ => null

def sRemovecharsOn (fast : Bool) : Option Text → Option Text → Option YCPValue
  | some s, some r =>
    if fast then removecharsBranch string s r
    else removecharsBranch ycpWstring (utf82wchar s) (utf82wchar r)
  | _, _ => some null

def sFiltercharsOn (fast : Bool) : Option Text → Option Text → Option YCPValue
  | some s, some i =>
    if fast then filtercharsBranch string s i
    else filtercharsBranch ycpWstring (utf82wchar s) (utf82wchar i)
  | _, _ => some null

/-- The test that `search` makes of its arguments. -/
def sSearch (s1 s2 : Option Text) : YCPValue := sSearchOn ((s1.all isAscii) && (s2.all isAscii)) s1 s2

def sIssubstring : Option Text → Option Text → YCPValue
  | some target, some sub => boolean (find target sub).isSome
  | _, _ => null

/-! ### ASCII strings as wide characters -/

lemma lt_of_isAscii {s : Text} (h : isAscii s = true) : ∀ b ∈ s, b < 128 := by
  simpa [isAscii] using h

lemma utf82wchar_of_isAscii {s : Text} (h : isAscii s = true) :
    utf82wchar s = s.map Char.ofUInt8 := Utf8.decode_of_lt (lt_of_isAscii h)

/-- What is cut out of an ASCII string comes back as it was. -/
lemma ycpWstring_map {s : Text} (h : ∀ b ∈ s, b < 128) : ycpWstring (s.map Char.ofUInt8) = string s := by
  rw [ycpWstring, wchar2utf8, Utf8.encode_map_ofUInt8 h]

lemma sSize_eq {s : Text} (hs : isAscii s = true) : sSizeOn true (some s) = sSizeOn false (some s) := by
  simp [sSizeOn, sizeBranch, utf82wchar_of_isAscii hs]

lemma substr_map {α β : Type} (f : α → β) (s : List α) (start length : Nat) :
    substr (s.map f) start length = (substr s start length).map f := by
  rw [substr, ← List.map_drop, ← List.map_take, substr]

lemma mem_of_mem_substr {α : Type} {s : List α} {start length : Nat} {c : α}
    (h : c ∈ substr s start length) : c ∈ s :=
  List.mem_of_mem_drop (List.mem_of_mem_take h)

lemma ycpWstring_substr {s : Text} (hs : isAscii s = true) (start length : Nat) :
    ycpWstring (substr (utf82wchar s) start length) = string (substr s start length) := by
  rw [utf82wchar_of_isAscii hs, substr_map, ycpWstring_map]
  exact fun b hb => lt_of_isAscii hs b (mem_of_mem_substr hb)

lemma sSubstring1_eq {s : Text} (hs : isAscii s = true) (i : Int64) :
    sSubstring1On true (some s) (some i) = sSubstring1On false (some s) (some i) := by
  have hlen : (utf82wchar s).length = s.length := by simp [utf82wchar_of_isAscii hs]
  simp [sSubstring1On, substring1Branch, ycpWstring_substr hs, hlen]

lemma sSubstring2_eq {s : Text} (hs : isAscii s = true) (i j : Int64) :
    sSubstring2On true (some s) (some i) (some j) = sSubstring2On false (some s) (some i) (some j) := by
  have hlen : (utf82wchar s).length = s.length := by simp [utf82wchar_of_isAscii hs]
  simp [sSubstring2On, substring2Branch, ycpWstring_substr hs, hlen]

/-- The loop over wide characters ends with the recoding of what the loop over bytes ends with. -/
lemma ycpWstring_eraseRuns {s : Text} (hs : isAscii s = true) (p : Char → Bool)
    (q : UInt8 → Bool) (hpq : p ∘ Char.ofUInt8 = q) :
    (eraseRuns p ((utf82wchar s).length + 1) (utf82wchar s) 0).map ycpWstring =
      (eraseRuns q (s.length + 1) s 0).map string := by
  rw [utf82wchar_of_isAscii hs, List.length_map, eraseRuns_map, hpq, eraseRuns_eq_filter]
  simp only [Option.map_some]
  rw [ycpWstring_map]
  exact fun b hb => lt_of_isAscii hs b (List.mem_of_mem_filter hb)

section Pairs

variable {s t : Text} (hs : isAscii s = true) (ht : isAscii t = true)

include hs ht

lemma sSearch_eq : sSearchOn true (some s) (some t) = sSearchOn false (some s) (some t) := by
  simp [sSearchOn, utf82wchar_of_isAscii hs, utf82wchar_of_isAscii ht,
    find_map Utf8.ofUInt8_injective]

lemma sFindfirstof_eq :
    sFindfirstofOn true (some s) (some t) = sFindfirstofOn false (some s) (some t) := by
  simp [sFindfirstofOn, utf82wchar_of_isAscii hs, utf82wchar_of_isAscii ht,
    findFirstOf_map Utf8.ofUInt8_injective]

lemma sFindfirstnotof_eq :
    sFindfirstnotofOn true (some s) (some t) = sFindfirstnotofOn false (some s) (some t) := by
  simp [sFindfirstnotofOn, utf82wchar_of_isAscii hs, utf82wchar_of_isAscii ht,
    findFirstNotOf_map Utf8.ofUInt8_injective]

lemma sFindlastof_eq :
    sFindlastofOn true (some s) (some t) = sFindlastofOn false (some s) (some t) := by
  simp [sFindlastofOn, utf82wchar_of_isAscii hs, utf82wchar_of_isAscii ht,
    findLastOf_map Utf8.ofUInt8_injective]

lemma sFindlastnotof_eq :
    sFindlastnotofOn true (some s) (some t) = sFindlastnotofOn false (some s) (some t) := by
  simp [sFindlastnotofOn, utf82wchar_of_isAscii hs, utf82wchar_of_isAscii ht,
    findLastNotOf_map Utf8.ofUInt8_injective]

lemma sRemovechars_eq :
    sRemovecharsOn true (some s) (some t) = sRemovecharsOn false (some s) (some t) := by
  have h := ycpWstring_eraseRuns hs _ _ (mem_comp Utf8.ofUInt8_injective t)
  simp only [sRemovecharsOn, removecharsBranch, if_true, utf82wchar_of_isAscii ht]
  exact h.symm

lemma sFilterchars_eq :
    sFiltercharsOn true (some s) (some t) = sFiltercharsOn false (some s) (some t) := by
  have h := ycpWstring_eraseRuns hs _ _ (not_mem_comp Utf8.ofUInt8_injective t)
  simp only [sFiltercharsOn, filtercharsBranch, if_true, utf82wchar_of_isAscii ht]
  exact h.symm

end Pairs

/-! ### Substrings of UTF-8 -/

lemma ycpPosition_ne_void_iff (pos : Option Nat) : ycpPosition pos ≠ void ↔ pos.isSome = true := by
  cases pos <;> simp [ycpPosition]

/-- Bytes and characters agree on whether one string occurs in another. -/
lemma find_isSome_eq {s t : Text} (hs : ValidUtf8 s) (ht : ValidUtf8 t) :
    (find (utf82wchar s) (utf82wchar t)).isSome = true ↔ (find s t).isSome = true := by
  obtain ⟨cs, rfl⟩ := hs
  obtain ⟨ct, rfl⟩ := ht
  rw [utf82wchar, utf82wchar, Utf8.decode_encode, Utf8.decode_encode, find_isSome_iff,
    find_isSome_iff, Utf8.encode_infix_iff]

lemma sIssubstring_iff {s t : Text} (hs : ValidUtf8 s) (ht : ValidUtf8 t) :
    sIssubstring (some s) (some t) = boolean true ↔ sSearch (some s) (some t) ≠ void := by
  have hsub : sIssubstring (some s) (some t) = boolean true ↔ (find s t).isSome = true := by
    simp [sIssubstring]
  rw [hsub, sSearch, sSearchOn]
  split
  · rw [ycpPosition_ne_void_iff]
  · rw [ycpPosition_ne_void_iff, find_isSome_eq hs ht]

/-- Both paths give the same value for ASCII strings, and `issubstring` agrees with `search`. -/
theorem string_builtins_agree (s t : Text) :
    (isAscii s = true → isAscii t = true →
      sSizeOn true (some s) = sSizeOn false (some s) ∧
      (∀ i, sSubstring1On true (some s) (some i) = sSubstring1On false (some s) (some i)) ∧
      (∀ i j, sSubstring2On true (some s) (some i) (some j) =
        sSubstring2On false (some s) (some i) (some j)) ∧
      sSearchOn true (some s) (some t) = sSearchOn false (some s) (some t) ∧
      sFindfirstofOn true (some s) (some t) = sFindfirstofOn false (some s) (some t) ∧
      sFindlastofOn true (some s) (some t) = sFindlastofOn false (some s) (some t) ∧
      sFindfirstnotofOn true (some s) (some t) = sFindfirstnotofOn false (some s) (some t) ∧
      sFindlastnotofOn true (some s) (some t) = sFindlastnotofOn false (some s) (some t) ∧
      sRemovecharsOn true (some s) (some t) = sRemovecharsOn false (some s) (some t) ∧
      sFiltercharsOn true (some s) (some t) = sFiltercharsOn false (some s) (some t)) ∧
    (ValidUtf8 s → ValidUtf8 t →
      (sIssubstring (some s) (some t) = boolean true ↔ sSearch (some s) (some t) ≠ void)) := by
  constructor
  · intro hs ht
    exact ⟨sSize_eq hs, sSubstring1_eq hs, sSubstring2_eq hs, sSearch_eq hs ht,
      sFindfirstof_eq hs ht, sFindlastof_eq hs ht, sFindfirstnotof_eq hs ht,
      sFindlastnotof_eq hs ht, sRemovechars_eq hs ht, sFilterchars_eq hs ht⟩
  · exact sIssubstring_iff

/-- `search ("abc", "c")` on both paths, and `issubstring` of an umlaut in itself. -/
theorem string_builtins_agree_abc :
    isAscii [97, 98, 99] = true ∧ isAscii [99] = true ∧ ValidUtf8 [195, 164] ∧
      sSearchOn true (some [97, 98, 99]) (some [99]) = sSearchOn false (some [97, 98, 99]) (some [99]) ∧
      (sIssubstring (some [195, 164]) (some [195, 164]) = boolean true ↔
        sSearch (some [195, 164]) (some [195, 164]) ≠ void) := by
  have hvalid : ValidUtf8 [195, 164] := ⟨['ä'], by decide⟩
  have hascii := (string_builtins_agree [97, 98, 99] [99]).1 (by decide) (by decide)
  exact ⟨by decide, by decide, hvalid, hascii.2.2.2.1,
    (string_builtins_agree [195, 164] [195, 164]).2 hvalid hvalid⟩

/-! ### Deleting and keeping characters -/

/-- The test that `deletechars` makes of its arguments. -/
def sRemovechars (s r : Option Text) : Option YCPValue :=
  sRemovecharsOn ((s.all isAscii) && (r.all isAscii)) s r

def sFilterchars (s i : Option Text) : Option YCPValue :=
  sFiltercharsOn ((s.all isAscii) && (i.all isAscii)) s i

/-- What `wvalue` makes of the bytes: a byte that starts no character is a question mark. -/
def characters (s : Text) : List Char := utf82wchar s

lemma encode_characters {s : Text} (h : ValidUtf8 s) : wchar2utf8 (characters s) = s := by
  obtain ⟨cs, rfl⟩ := h
  rw [characters, utf82wchar, Utf8.decode_encode, wchar2utf8]

/-- Where the test holds the fast path gives what the other would have given. -/
lemma sRemovechars_eq_wide (s c : Text) :
    sRemovechars (some s) (some c) = sRemovecharsOn false (some s) (some c) := by
  rw [sRemovechars]
  by_cases hascii : isAscii s = true ∧ isAscii c = true
  · rw [← sRemovechars_eq hascii.1 hascii.2]
    simp [hascii]
  · have htest : ((some s).all isAscii && (some c).all isAscii) = false := by simpa using hascii
    rw [htest]

lemma sFilterchars_eq_wide (s c : Text) :
    sFilterchars (some s) (some c) = sFiltercharsOn false (some s) (some c) := by
  rw [sFilterchars]
  by_cases hascii : isAscii s = true ∧ isAscii c = true
  · rw [← sFilterchars_eq hascii.1 hascii.2]
    simp [hascii]
  · have htest : ((some s).all isAscii && (some c).all isAscii) = false := by simpa using hascii
    rw [htest]

lemma sRemovechars_eq_filter (s c : Text) :
    sRemovechars (some s) (some c) =
      some (ycpWstring ((characters s).filter fun x => decide (x ∉ characters c))) := by
  rw [sRemovechars_eq_wide, sRemovecharsOn, if_neg Bool.false_ne_true, removecharsBranch,
    eraseRuns_eq_filter, Option.map_some, characters]
  congr 2
  exact List.filter_congr fun x _ => by simp

lemma sFilterchars_eq_filter (s c : Text) :
    sFilterchars (some s) (some c) =
      some (ycpWstring ((characters s).filter fun x => decide (x ∈ characters c))) := by
  rw [sFilterchars_eq_wide, sFiltercharsOn, if_neg Bool.false_ne_true, filtercharsBranch,
    eraseRuns_eq_filter, Option.map_some, characters]
  congr 2
  exact List.filter_congr fun x _ => by simp

end YastCore
