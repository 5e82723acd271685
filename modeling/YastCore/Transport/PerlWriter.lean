import YastCore.Builtin.MapContents
import YastCore.Transport.PerlReader

/-!
# Values that Perl agents send

`Return` of `ycp.pm` with all scalars as strings. The value that is received does not depend on the order in
which Perl goes through its hashes.
-/

namespace YastCore.Transport

open Lines

/-! ### The writer -/

/-- The bytes of a code in UTF-8. -/
def utf8Bytes (c : Nat) : Text :=
  if c < 2 ^ 7 then [UInt8.ofNat c]
  else if c < 2 ^ 11 then [UInt8.ofNat (192 + c / 2 ^ 6), UInt8.ofNat (128 + c % 2 ^ 6)]
  else if c < 2 ^ 16 then
    [UInt8.ofNat (224 + c / 2 ^ 12), UInt8.ofNat (128 + c / 2 ^ 6 % 2 ^ 6), UInt8.ofNat (128 + c % 2 ^ 6)]
  else
    [UInt8.ofNat (240 + c / 2 ^ 18), UInt8.ofNat (128 + c / 2 ^ 12 % 2 ^ 6), UInt8.ofNat (128 + c / 2 ^ 6 % 2 ^ 6),
      UInt8.ofNat (128 + c % 2 ^ 6)]

namespace PerlString

/-- The string after `utf8::encode($string) if utf8::is_utf8($string)`. -/
def encoded (s : PerlString) : Text :=
  if s.is_utf8 then s.codes.flatMap utf8Bytes else s.codes.map UInt8.ofNat

/-- What `print` writes; a string that is not one of bytes is written in UTF-8. -/
def printed (s : PerlString) : Text :=
  if s.codes.any (2 ^ 8 ≤ ·) then s.codes.flatMap utf8Bytes else s.codes.map UInt8.ofNat

end PerlString

mutual

/-- `Return ($val, 1)`; the entries of a hash are in the order of `each`. -/
def returned : PerlValue → Text
  | .undef => ascii "(nil)"
  | .scalar s => writeYcpString s.encoded
  | .ref s => 40 :: (s.printed ++ [41])
  | .array l => 91 :: (returnedElems l ++ ascii "] ")
  | .hash h => ascii "$[" ++ (returnedEntries h ++ ascii "] ")

/-- The elements; a trailing comma is allowed. -/
def returnedElems : List PerlValue → Text
  | [] => []
  | elem :: l => returned elem ++ 44 :: returnedElems l

def returnedEntries : List (PerlString × PerlValue) → Text
  | [] => []
  | (key, value) :: h => writeYcpString key.encoded ++ 58 :: (returned value ++ 44 :: returnedEntries h)

end

/-- What is behind the value, in the text that has been written for it. -/
def gap : PerlValue → Text
  | .array _ => [32]
  | .hash _ => [32]
  | _ => []

/-! ### What is received -/

/-- A string without the bytes that the scanner leaves out. -/
def withoutNul (t : Text) : Text := t.filter (· ≠ 0)

def keyText (key : PerlString) : Text := withoutNul key.encoded

mutual

def ycpOf : PerlValue → YCPValue
  | .undef => .void
  | .scalar s => .string (withoutNul s.encoded)
  | .ref s => (scanLeaf s.printed).getD .null
  | .array l => .list (ycpOfList l)
  | .hash h => .map (YCPValue.rebuild (ycpOfEntries h))

def ycpOfList : List PerlValue → List YCPValue
  | [] => []
  | x :: l => ycpOf x :: ycpOfList l

def ycpOfEntries : List (PerlString × PerlValue) → List (YCPValue × YCPValue)
  | [] => []
  | (key, x) :: h => (.string (keyText key), ycpOf x) :: ycpOfEntries h

end

lemma ycpOfList_eq_map (l : List PerlValue) : ycpOfList l = l.map ycpOf := by
  induction l with
  | nil => rfl
  | cons x l ih => rw [ycpOfList, ih, List.map_cons]

/-- An entry of a hash as one of a map. -/
def ycpEntry (e : PerlString × PerlValue) : YCPValue × YCPValue := (.string (keyText e.1), ycpOf e.2)

lemma ycpOfEntries_eq_map (h : List (PerlString × PerlValue)) : ycpOfEntries h = h.map ycpEntry := by
  induction h with
  | nil => rfl
  | cons e h ih =>
    obtain ⟨key, x⟩ := e
    rw [ycpOfEntries, ih, List.map_cons]
    rfl

/-- A value that the parser gives a meaning: a reference shows a constant, and the keys of a hash differ also
without the bytes that are left out. -/
inductive Sendable : PerlValue → Prop where
  | undef : Sendable .undef
  | scalar (s : PerlString) : Sendable (.scalar s)
  | ref {s : PerlString} {v : YCPValue} (constant : scanLeaf s.printed = some v) (notNull : v.isNull = false) :
      Sendable (.ref s)
  | array {l : List PerlValue} (elems : ∀ x ∈ l, Sendable x) : Sendable (.array l)
  | hash {h : List (PerlString × PerlValue)} (keys : (h.map fun e => keyText e.1).Nodup)
      (values : ∀ e ∈ h, Sendable e.2) : Sendable (.hash h)

/-! ### The order of hashes -/

/-- The same value, with hashes in another order. -/
inductive Reordered : PerlValue → PerlValue → Prop where
  | refl (x : PerlValue) : Reordered x x
  | trans {x y z : PerlValue} (hxy : Reordered x y) (hyz : Reordered y z) : Reordered x z
  | order {h h' : List (PerlString × PerlValue)} (hperm : h.Perm h') : Reordered (.hash h) (.hash h')
  | elem {x y : PerlValue} (before after : List PerlValue) (hxy : Reordered x y) :
      Reordered (.array (before ++ x :: after)) (.array (before ++ y :: after))
  | value {x y : PerlValue} (before after : List (PerlString × PerlValue)) (key : PerlString) (hxy : Reordered x y) :
      Reordered (.hash (before ++ (key, x) :: after)) (.hash (before ++ (key, y) :: after))

section Contents

variable {m m' : List (YCPValue × YCPValue)}

open Classical in
/-- The contents of the map that is built from entries: a later one replaces an earlier one. -/
noncomputable def lastOf (m : List (YCPValue × YCPValue)) : Contents :=
  m.foldl (fun f e => Function.update f e.1 (some e.2)) fun _ => none

open Classical in
lemma holds_rebuild (hkeys : ∀ e ∈ m, e.1.isMapKey = true) : HoldsContents (YCPValue.rebuild m) (lastOf m) := by
  have hfold (acc : List (YCPValue × YCPValue)) (f : Contents) (hacc : HoldsContents acc f) :
      HoldsContents (m.foldl (fun m e => YCPValue.mapInsert e.1 e.2 m) acc)
        (m.foldl (fun f e => Function.update f e.1 (some e.2)) f) := by
    induction m generalizing acc f with
    | nil => exact hacc
    | cons e m ih =>
      rw [List.forall_mem_cons] at hkeys
      exact ih hkeys.2 _ _ (holds_insert hacc hkeys.1 e.2)
  exact hfold [] _ StdMap.represents_nil

open Classical in
/-- Entries with different keys can be put in in any order. -/
lemma lastOf_perm (hperm : m.Perm m') (hnodup : (m.map Prod.fst).Nodup) : lastOf m = lastOf m' := by
  refine hperm.foldl_eq' (fun e he e' he' f => ?_) _
  by_cases hkey : e.1 = e'.1
  · rw [List.inj_on_of_nodup_map hnodup he he' hkey]
  · exact Function.update_comm hkey _ _ f

lemma rebuild_perm (hperm : m.Perm m') (hkeys : ∀ e ∈ m, e.1.isMapKey = true) (hnodup : (m.map Prod.fst).Nodup) :
    YCPValue.rebuild m = YCPValue.rebuild m' := by
  have hkeys' : ∀ e ∈ m', e.1.isMapKey = true := fun e he => hkeys e (hperm.mem_iff.mpr he)
  have hm' := holds_rebuild hkeys'
  rw [← lastOf_perm hperm hnodup] at hm'
  exact orders_keyLess.represents_unique (holds_rebuild hkeys) hm'

end Contents

lemma isMapKey_ycpEntry (h : List (PerlString × PerlValue)) : ∀ e ∈ h.map ycpEntry, e.1.isMapKey = true := by
  intro e he
  obtain ⟨e', -, rfl⟩ := List.mem_map.mp he
  rfl

/-- In any order a value means the same. -/
lemma Reordered.spec {x y : PerlValue} (hxy : Reordered x y) (hx : Sendable x) : Sendable y ∧ ycpOf y = ycpOf x := by
  induction hxy with
  | refl x => exact ⟨hx, rfl⟩
  | trans _ _ ih ih' =>
    obtain ⟨hy, hxy⟩ := ih hx
    obtain ⟨hz, hyz⟩ := ih' hy
    exact ⟨hz, hyz.trans hxy⟩
  | @order h h' hperm =>
    cases hx with
    | hash keys values =>
    have hnodup : ((h.map ycpEntry).map Prod.fst).Nodup := by
      have hkeys : (h.map ycpEntry).map Prod.fst = (h.map fun e => keyText e.1).map YCPValue.string := by
        simp [ycpEntry]
      rw [hkeys]
      exact keys.map fun _ _ => YCPValue.string.inj
    constructor
    · exact .hash ((hperm.map _).nodup_iff.mp keys) fun e he => values e (hperm.mem_iff.mpr he)
    · rw [ycpOf, ycpOf, ycpOfEntries_eq_map, ycpOfEntries_eq_map,
        rebuild_perm (hperm.map ycpEntry) (isMapKey_ycpEntry h) hnodup]
  | elem before after _ ih =>
    cases hx with
    | array elems =>
    rw [List.forall_mem_append, List.forall_mem_cons] at elems
    obtain ⟨hbefore, hx, hafter⟩ := elems
    obtain ⟨hy, heq⟩ := ih hx
    constructor
    · refine .array ?_
      rw [List.forall_mem_append, List.forall_mem_cons]
      exact ⟨hbefore, hy, hafter⟩
    · rw [ycpOf, ycpOf, ycpOfList_eq_map, ycpOfList_eq_map]
      simp only [List.map_append, List.map_cons, heq]
  | value before after key _ ih =>
    cases hx with
    | hash keys values =>
    rw [List.forall_mem_append, List.forall_mem_cons] at values
    obtain ⟨hbefore, hx, hafter⟩ := values
    obtain ⟨hy, heq⟩ := ih hx
    constructor
    · refine .hash (by simpa using keys) ?_
      rw [List.forall_mem_append, List.forall_mem_cons]
      exact ⟨hbefore, hy, hafter⟩
    · rw [ycpOf, ycpOf, ycpOfEntries_eq_map, ycpOfEntries_eq_map]
      simp only [List.map_append, List.map_cons, ycpEntry, heq]

lemma Reordered.gap_eq {x y : PerlValue} (hxy : Reordered x y) : gap y = gap x := by
  induction hxy with
  | refl x => rfl
  | trans _ _ ih ih' => exact ih'.trans ih
  | order => rfl
  | elem => rfl
  | value => rfl

/-! ### Reading what has been written -/

lemma reads_paren {text t t' rest : Text} {v : YCPValue} (hopen : scan text = some (.char 40, t)) (h : Reads t v t')
    (hclose : scan t' = some (.char 41, rest)) : Reads text v rest where
  notNull := h.notNull
  tokens := .step hopen (h.tokens.trans (.one hclose))
  code := by
    intro heap
    obtain ⟨n, p, hexpr, hresult⟩ := h.code heap
    rw [← hresult.rest_eq] at hclose
    refine ⟨n + 1, { p with rest := rest }, ?_,
      ⟨hresult.grows, hresult.denotes, rfl, hresult.data, hresult.key⟩⟩
    refine expression_of_scan hopen (by simp) fun fuel hfuel => ?_
    exact compactExpression_open (hexpr fuel hfuel) hclose fuel

/-- A constant between parentheses. -/
lemma reads_parenLeaf {t : Text} {v : YCPValue} (h : scanLeaf t = some v) (hnull : v.isNull = false) (rest : Text) :
    Reads (40 :: (t ++ 41 :: rest)) v rest :=
  reads_paren (scan_open _) (reads_leaf rest h hnull rfl fun heq => by cases heq) (scan_close _)

/-- A zero byte is written as an octal escape, which the scanner reports and leaves out. -/
lemma scanString_zero (buffer text : Text) : scanString buffer (writeChar 0 ++ text) = scanString buffer text := by
  have hzero : writeChar 0 = 92 :: octal3 0 := rfl
  have hdigits : octal3 0 ≠ [] := by simp [octal3]
  have hvalue : octalValue (octal3 0) = 0 := octalValue_octal3 0
  rw [hzero, List.cons_append, scanString.eq_def]
  simp only [octalDigits_octal3, hvalue, if_pos hdigits]
  rfl

lemma scanString_written (buffer rest string : Text) :
    scanString buffer (string.flatMap writeChar ++ 34 :: rest) = some (cut (buffer ++ withoutNul string), rest) := by
  induction string generalizing buffer with
  | nil =>
    rw [List.flatMap_nil, List.nil_append, scanString.eq_def]
    simp [withoutNul]
  | cons c string ih =>
    rw [List.flatMap_cons, List.append_assoc]
    by_cases hc : c = 0
    · subst hc
      rw [scanString_zero, ih]
      simp [withoutNul]
    · rw [scanString_writeChar buffer _ hc, ih]
      simp [withoutNul, hc]

lemma scan_written (string rest : Text) :
    scan (writeYcpString string ++ rest) = some (.constant (.string (withoutNul string)), rest) := by
  have htext : writeYcpString string ++ rest = 34 :: (string.flatMap writeChar ++ 34 :: rest) := by
    rw [writeYcpString_eq, List.cons_append, List.append_assoc, List.singleton_append]
  have hcut : cut (withoutNul string) = withoutNul string := cut_eq_self.mpr (by simp [withoutNul])
  have hscan : scan (34 :: (string.flatMap writeChar ++ 34 :: rest)) =
      (scanString [] (string.flatMap writeChar ++ 34 :: rest)).map fun s => (.constant (.string s.1), s.2) := rfl
  rw [htext, hscan, scanString_written, List.nil_append, hcut]
  rfl

/-- What is behind an element or an entry: a comma, perhaps after a blank. -/
lemma scan_gap (x : PerlValue) (t : Text) : scan (gap x ++ 44 :: t) = some (.char 44, t) := by
  cases x <;> rfl

/-- The value is read from its text, whatever is behind it. -/
def ReadByLibrary (x : PerlValue) : Prop := ∀ rest, Reads (returned x ++ rest) (ycpOf x) (gap x ++ rest)

lemma listText_returnedElems {l : List PerlValue} (hl : ∀ x ∈ l, ReadByLibrary x) (rest : Text) :
    ListText (returnedElems l ++ 93 :: 32 :: rest) (ycpOfList l) (32 :: rest) := by
  induction l with
  | nil => exact scan_bracket (by simp)
  | cons x l ih =>
    rw [List.forall_mem_cons] at hl
    rw [returnedElems, List.append_assoc, List.cons_append]
    exact ⟨_, hl.1 _, .comma (scan_gap x _) (ih hl.2)⟩

lemma entriesText_returnedEntries {h : List (PerlString × PerlValue)} (hh : ∀ e ∈ h, ReadByLibrary e.2) (rest : Text) :
    EntriesText (returnedEntries h ++ 93 :: 32 :: rest) (ycpOfEntries h) (32 :: rest) := by
  induction h with
  | nil => exact scan_bracket (by simp)
  | cons e h ih =>
    rw [List.forall_mem_cons] at hh
    obtain ⟨key, x⟩ := e
    have hvalue := hh.1 (44 :: (returnedEntries h ++ 93 :: 32 :: rest))
    have htext : returnedEntries ((key, x) :: h) ++ 93 :: 32 :: rest =
        writeYcpString key.encoded ++ 58 :: (returned x ++ 44 :: (returnedEntries h ++ 93 :: 32 :: rest)) := by
      simp [returnedEntries]
    rw [htext]
    exact ⟨_, ⟨rfl, _, _, reads_constant (scan_written key.encoded _) rfl, scan_colon hvalue.head_ne_colon, hvalue⟩,
      .comma (scan_gap x _) (ih hh.2)⟩

lemma Sendable.readByLibrary {x : PerlValue} (hx : Sendable x) : ReadByLibrary x := by
  induction hx with
  | undef =>
    intro rest
    have hnil : scanLeaf (ascii "nil") = some .void := rfl
    exact reads_parenLeaf hnil rfl rest
  | scalar s => exact fun rest => reads_constant (scan_written s.encoded rest) rfl
  | @ref s v constant notNull =>
    intro rest
    have htext : returned (.ref s) ++ rest = 40 :: (s.printed ++ 41 :: rest) := by simp [returned]
    rw [htext, ycpOf, constant]
    exact reads_parenLeaf constant notNull rest
  | @array l _ ih =>
    intro rest
    have htext : returned (.array l) ++ rest = 91 :: (returnedElems l ++ 93 :: 32 :: rest) := by
      simp [returned, ascii]
    rw [htext]
    exact reads_list (scan_list _) (listText_returnedElems ih rest)
  | @hash h _ _ ih =>
    intro rest
    have htext : returned (.hash h) ++ rest = 36 :: 91 :: (returnedEntries h ++ 93 :: 32 :: rest) := by
      simp [returned, ascii]
    rw [htext]
    exact reads_entries (scan_map _) (entriesText_returnedEntries ih rest)

/-! ### Answers -/

/-- A value whose text does not begin with a minus sign is received when the parser reads it. -/
lemma receive_of_reads {text mid rest : Text} {v : YCPValue} {token : Token} (h : Reads text v rest)
    (hscan : scan text = some (token, mid)) (hminus : token ≠ .char 45) :
    ∃ n, ∀ fuel, n ≤ fuel → receiveFromExternal fuel text = some (v, rest) := by
  obtain ⟨n, p, hexpr, hresult⟩ := h.code []
  refine ⟨n, fun fuel hfuel => ?_⟩
  have hparse : parse fuel text = some p := by
    have hnext := hexpr (fuel + 1) (by omega)
    rw [expression, hscan] at hnext
    rw [parse, hscan]
    split at hnext
    next heq => exact absurd (Prod.mk.inj (Option.some.inj heq)).1 hminus
    next heq =>
      cases heq
      exact hnext
    next heq => cases heq
  have hvalue : p.heap.evaluate true p.c = some v := hresult.denotes.evaluate
  rw [receiveFromExternal, hparse, Option.bind_eq_bind, Option.bind_some, hvalue, Option.bind_eq_bind,
    Option.bind_some, h.notNull, if_neg Bool.false_ne_true, hresult.rest_eq]

/-- The first token of an answer is no minus sign. -/
lemma scan_returned (x : PerlValue) (rest : Text) :
    ∃ token mid, scan (returned x ++ rest) = some (token, mid) ∧ token ≠ .char 45 := by
  cases x with
  | undef => exact ⟨_, _, scan_open _, by simp⟩
  | scalar s => exact ⟨_, _, scan_written s.encoded rest, Token.noConfusion⟩
  | ref s => exact ⟨_, _, scan_open _, by simp⟩
  | array l => exact ⟨_, _, scan_list _, by simp⟩
  | hash h => exact ⟨_, _, scan_map _, Token.noConfusion⟩

end YastCore.Transport
