import YastCore.Transport.DataFile
import YastCore.Transport.Literals

/-!
# Values that Perl agents read

`ParseTerm` and `ParseYcp` of `ycp.pm`, which take a command apart that the library has printed. What is read
and in which form is decided by the value alone, not by where it stands in the text.
-/

namespace YastCore.Transport

open Lines

/-! ### Perl values -/

/-- The codes of the characters and the UTF-8 flag. Without the flag the codes are bytes. -/
structure PerlString where
  codes : List Nat
  is_utf8 : Bool
  range : ∀ c ∈ codes, c < if is_utf8 then 2 ^ 21 else 2 ^ 8

namespace PerlString

def ofBytes (t : Text) : PerlString where
  codes := t.map UInt8.toNat
  is_utf8 := false
  range := by
    intro c hc
    obtain ⟨b, -, rfl⟩ := List.mem_map.mp hc
    exact b.toNat_lt

/-- What is put together by `chr`; a code that is no byte sets the flag. -/
def ofCodes (codes : List Nat) : PerlString where
  codes := codes.map (· % 2 ^ 21)
  is_utf8 := codes.any (2 ^ 8 ≤ · % 2 ^ 21)
  range := by
    intro c hc
    obtain ⟨n, hn, rfl⟩ := List.mem_map.mp hc
    cases hany : codes.any (2 ^ 8 ≤ · % 2 ^ 21) with
    | true =>
      rw [if_pos rfl]
      exact Nat.mod_lt n (by decide)
    | false =>
      have hbyte := List.any_eq_false.mp hany n hn
      rw [if_neg Bool.false_ne_true]
      simpa using hbyte

lemma ofCodes_bytes (t : Text) : ofCodes (t.map UInt8.toNat) = ofBytes t := by
  have hmod : ∀ b : UInt8, b.toNat % 2 ^ 21 = b.toNat := fun b =>
    Nat.mod_eq_of_lt (b.toNat_lt.trans (by decide))
  have hcodes : (t.map UInt8.toNat).map (· % 2 ^ 21) = t.map UInt8.toNat := by
    rw [List.map_map]
    exact List.map_congr_left fun b _ => hmod b
  have hflag : (t.map UInt8.toNat).any (2 ^ 8 ≤ · % 2 ^ 21) = false := by
    rw [List.any_eq_false]
    intro n hn
    obtain ⟨b, -, rfl⟩ := List.mem_map.mp hn
    have hlt := b.toNat_lt
    rw [hmod b]
    simpa using hlt
  simp only [ofCodes, ofBytes, hcodes, hflag]

end PerlString

/-- A reference to a scalar stands for a path. The keys of a hash are distinct, their order is any. -/
inductive PerlValue where
  | undef
  | scalar (s : PerlString)
  | ref (s : PerlString)
  | array (l : List PerlValue)
  | hash (h : List (PerlString × PerlValue))

/-- `$ret->{$key} = $value` -/
def store (key : PerlString) (value : PerlValue) : List (PerlString × PerlValue) → List (PerlString × PerlValue)
  | [] => [(key, value)]
  | e :: h => if e.1.codes = key.codes then (e.1, value) :: h else e :: store key value h

/-- A value as a key of a hash; a reference shows as its address. -/
def keyOf (address : PerlValue → PerlString) : PerlValue → PerlString
  | .undef => .ofBytes []
  | .scalar s => s
  | x => address x

/-! ### The parser -/

inductive ReadError where
  | unexpectedEnd
  | notSupported
  | cantHappen
  | expectingOpen (description : String)
  | expectingComma (description : String)
  | expectingColon
  | unexpectedCharacters
deriving DecidableEq

/-- `PerlYCPParserResult`, with the rest of the input in either case; none is a parser without fuel. -/
abbrev Read (α : Type) := Option (Except (ReadError × Text) (α × Text))

/-- What `(.*)` matches. -/
def restOfLine (t : Text) : Text := t.takeWhile (· ≠ 10)

/-- `s/^\s*(,)?\s*//`, and whether there was a comma. -/
def skipComma (t : Text) : Bool × Text :=
  let t := eatWhitespaces t
  if t.head? = some 44 then (true, eatWhitespaces (t.drop 1)) else (false, t)

/-- `^(-?\d+)` -/
def matchNumber (t : Text) : Option (Text × Text) :=
  let minus := if t.head? = some 45 then [45] else []
  let digits := longest isDigit (t.drop minus.length)
  if digits.1 = [] then none else some (minus ++ digits.1, digits.2)

/-- `$num = oct ($num) if $num =~ /^0/`; `oct` stops at the first other digit. -/
def perlNumber (num : Text) : Text :=
  if num.head? = some 48 then decimal (octalValue (num.takeWhile isOctal)) else num

/-- `$lex_pathsegment` -/
def perlSegment : Text → Option (Text × Text)
  | [] => none
  | c :: t =>
    if c = 34 then (scanQuoted t).map fun q => (34 :: q.1, q.2)
    else
      let segment := longest isSimplePathChar (c :: t)
      if segment.1 = [] then none else some segment

/-- `(?:\.${lex_pathsegment})*`, for at most this many segments. -/
def perlSegments : Nat → Text → Text × Text
  | 0, t => ([], t)
  | n + 1, t =>
    if t.head? = some 46 then
      match perlSegment (t.drop 1) with
      | none => ([], t)
      | some (segment, rest) =>
        let more := perlSegments n rest
        (46 :: (segment ++ more.1), more.2)
    else ([], t)

/-- `((?:\.${lex_pathsegment})+|\.)`, of a text that starts with a dot. -/
def perlPath (t : Text) : Text × Text :=
  let path := perlSegments t.length t
  if path.1 = [] then ([46], t.drop 1) else path

/-- `ParseYcpString`, with the rest of the input of its errors. -/
def readString (ycp_value : Text) : Except (ReadError × Text) (PerlValue × Text) :=
  match parseYcpString ycp_value with
  | .ok (ret, rest) => .ok (.scalar (.ofCodes ret), rest)
  | .error .unexpectedEnd => .error (.unexpectedEnd, [])
  | .error .cantHappen => .error (.cantHappen, [92])

/-- The loop of `ParseYcpByteblock`; blanks may stand behind any byte. -/
def byteblockLoop (ret : List UInt8) : Text → Except (ReadError × Text) (List UInt8 × Text)
  | [] => .error (.unexpectedCharacters, [])
  | [c] =>
    if c = 93 then .ok (ret, [])
    else if isspace c then .error (.unexpectedCharacters, [])
    else .error (.unexpectedCharacters, [c])
  | c :: d :: t =>
    if c = 93 then .ok (ret, eatWhitespaces (d :: t))
    else if isspace c then byteblockLoop ret (d :: t)
    else if isxdigit c && isxdigit d then
      byteblockLoop (ret ++ [UInt8.ofNat (xdigitValue c * 16 + xdigitValue d)]) t
    else .error (.unexpectedCharacters, c :: d :: t)

def parseYcpByteblock (ycp_value : Text) : Except (ReadError × Text) (PerlValue × Text) :=
  match byteblockLoop [] (eatWhitespaces (ycp_value.drop 2)) with
  | .ok (ret, rest) => .ok (.scalar (.ofBytes ret), rest)
  | .error e => .error e

section

variable (parseYcp : Text → Read PerlValue)

/-- The loop of `ParseYcpGenericList`. -/
def genericListLoop (description : String) (close : UInt8) :
    Nat → List PerlValue → (seen_elem seen_comma : Bool) → Text → Read (List PerlValue)
  | 0, _, _, _, _ => none
  | fuel + 1, ret, seen_elem, seen_comma, t =>
    if t.head? = some close then some (.ok (ret, eatWhitespaces (t.drop 1)))
    else if seen_elem && !seen_comma then some (.error (.expectingComma description, t))
    else
      match parseYcp t with
      | none => none
      | some (.error e) => some (.error e)
      | some (.ok (elem, rest)) =>
        let comma := skipComma rest
        genericListLoop description close fuel (ret ++ [elem]) true comma.1 comma.2

def parseYcpGenericList (fuel : Nat) (description : String) (opening close : UInt8) (t : Text) :
    Read (List PerlValue) :=
  if t.head? = some opening then
    genericListLoop parseYcp description close fuel [] false false (eatWhitespaces (t.drop 1))
  else some (.error (.expectingOpen description, t))

/-- The loop of `ParseYcpMap`. -/
def mapLoop (address : PerlValue → PerlString) :
    Nat → List (PerlString × PerlValue) → (seen_elem seen_comma : Bool) → Text →
      Read (List (PerlString × PerlValue))
  | 0, _, _, _, _ => none
  | fuel + 1, ret, seen_elem, seen_comma, t =>
    if t.head? = some 93 then some (.ok (ret, eatWhitespaces (t.drop 1)))
    else if seen_elem && !seen_comma then some (.error (.expectingComma "map", t))
    else
      match parseYcp t with
      | none => none
      | some (.error e) => some (.error e)
      | some (.ok (key, rest)) =>
        if (eatWhitespaces rest).head? ≠ some 58 then some (.error (.expectingColon, rest))
        else
          match parseYcp (eatWhitespaces ((eatWhitespaces rest).drop 1)) with
          | none => none
          | some (.error e) => some (.error e)
          | some (.ok (value, rest)) =>
            let comma := skipComma rest
            mapLoop address fuel (store (keyOf address key) value ret) true comma.1 comma.2

end

def parseYcp (address : PerlValue → PerlString) : Nat → Text → Read PerlValue
  | 0, _ => none
  | fuel + 1, ycp_value =>
    let t := eatWhitespaces ycp_value
    if (ascii "nil").isPrefixOf t then some (.ok (.undef, restOfLine (t.drop 3)))
    else if (ascii "false").isPrefixOf t then
      some (.ok (.scalar (.ofBytes (ascii "0")), restOfLine (t.drop 5)))
    else if (ascii "true").isPrefixOf t then
      some (.ok (.scalar (.ofBytes (ascii "1")), restOfLine (t.drop 4)))
    else
      match matchNumber t with
      | some (num, rest) => some (.ok (.scalar (.ofBytes (perlNumber num)), restOfLine rest))
      | none =>
        if t.head? = some 34 then some (readString t)
        else if t.head? = some 46 then
          let path := perlPath t
          some (.ok (.ref (.ofBytes path.1), restOfLine path.2))
        else if t.head? = some 91 then
          match parseYcpGenericList (parseYcp address fuel) fuel "list" 91 93 t with
          | none => none
          | some (.error e) => some (.error e)
          | some (.ok (l, rest)) => some (.ok (.array l, rest))
        else if (ascii "$[").isPrefixOf t then
          match mapLoop (parseYcp address fuel) address fuel [] false false (eatWhitespaces (t.drop 2)) with
          | none => none
          | some (.error e) => some (.error e)
          | some (.ok (h, rest)) => some (.ok (.hash h, rest))
        else if (ascii "#[").isPrefixOf t then some (parseYcpByteblock t)
        else if t = [] then some (.error (.unexpectedEnd, t))
        else some (.error (.notSupported, t))

/-- `ParseTerm`: the symbol and the arguments; errors are logged, and there are no arguments then. -/
def parseTerm (address : PerlValue → PerlString) (fuel : Nat) (input : Text) : Option (Text × List PerlValue) :=
  let t := eatWhitespaces input
  let symbol := longest isWordChar (if t.head? = some 96 then t.drop 1 else t)
  match parseYcpGenericList (parseYcp address fuel) fuel "term" 40 41 (eatWhitespaces symbol.2) with
  | none => none
  | some (.error _) => some (symbol.1, [])
  | some (.ok (args, _)) => some (symbol.1, args)

/-! ### Leaves -/

variable {address : PerlValue → PerlString} {isprint : UInt8 → Bool}

/-- With enough fuel, this is the result of the parser. -/
def Results (address : PerlValue → PerlString) (t : Text) (r : Except (ReadError × Text) (PerlValue × Text)) : Prop :=
  ∃ n, ∀ fuel, n ≤ fuel → parseYcp address fuel t = some r

/-- What stands behind a value on its line. -/
def Behind (rest : Text) : Prop := newline ∉ rest ∧ ∃ d r, rest = d :: r ∧ isDelimiter d = true

lemma Behind.restOfLine {rest : Text} (h : Behind rest) : restOfLine rest = rest := by
  rw [Transport.restOfLine, List.takeWhile_eq_self_iff]
  intro c hc
  refine decide_eq_true ?_
  rintro rfl
  exact h.1 hc

lemma isspace_delimiter {d : UInt8} (hd : isDelimiter d = true) : isspace d = false := by
  rcases delimiter_cases hd with rfl | rfl | rfl | rfl <;> rfl

lemma eatWhitespaces_cons {c : UInt8} (hc : isspace c = false) (t : Text) : eatWhitespaces (c :: t) = c :: t :=
  List.dropWhile_cons_of_neg (by simp [hc])

lemma Behind.eatWhitespaces {rest : Text} (h : Behind rest) : eatWhitespaces rest = rest := by
  obtain ⟨-, d, r, rfl, hd⟩ := h
  exact eatWhitespaces_cons (isspace_delimiter hd) r

/-- A text that begins with none of the keywords and no number. -/
lemma parseYcp_other {c : UInt8} (hspace : isspace c = false) (hword : c ≠ 110 ∧ c ≠ 102 ∧ c ≠ 116)
    (hnumber : isDigit c = false ∧ c ≠ 45) (fuel : Nat) (t : Text) :
    parseYcp address (fuel + 1) (c :: t) =
      if c = 34 then some (readString (c :: t))
      else if c = 46 then some (.ok (.ref (.ofBytes (perlPath (c :: t)).1), restOfLine (perlPath (c :: t)).2))
      else if c = 91 then
        match parseYcpGenericList (parseYcp address fuel) fuel "list" 91 93 (c :: t) with
        | none => none
        | some (.error e) => some (.error e)
        | some (.ok (l, rest)) => some (.ok (.array l, rest))
      else if (ascii "$[").isPrefixOf (c :: t) then
        match mapLoop (parseYcp address fuel) address fuel [] false false (eatWhitespaces (t.drop 1)) with
        | none => none
        | some (.error e) => some (.error e)
        | some (.ok (h, rest)) => some (.ok (.hash h, rest))
      else if (ascii "#[").isPrefixOf (c :: t) then some (parseYcpByteblock (c :: t))
      else some (.error (.notSupported, c :: t)) := by
  obtain ⟨hn, hf, ht⟩ := hword
  obtain ⟨hdigit, hminus⟩ := hnumber
  have hprefix {w : UInt8} (word : Text) (hw : c ≠ w) : (w :: word).isPrefixOf (c :: t) = false := by
    rw [List.isPrefixOf, beq_eq_false_iff_ne.mpr (Ne.symm hw), Bool.false_and]
  have hmatch : matchNumber (c :: t) = none := by
    simp [matchNumber, longest, hminus, hdigit]
  have hnil : (ascii "nil").isPrefixOf (c :: t) = false := hprefix [105, 108] hn
  have hfalse : (ascii "false").isPrefixOf (c :: t) = false := hprefix [97, 108, 115, 101] hf
  have htrue : (ascii "true").isPrefixOf (c :: t) = false := hprefix [114, 117, 101] ht
  rw [parseYcp, eatWhitespaces_cons hspace]
  simp only [hnil, hfalse, htrue, hmatch, Bool.false_eq_true, if_false, List.head?_cons, Option.some.injEq,
    reduceCtorEq]
  rfl

lemma results_succ {t : Text} {r : Except (ReadError × Text) (PerlValue × Text)}
    (h : ∀ fuel, parseYcp address (fuel + 1) t = some r) : Results address t r := by
  refine ⟨1, fun fuel hfuel => ?_⟩
  obtain ⟨fuel, rfl⟩ : ∃ m, fuel = m + 1 := ⟨fuel - 1, by omega⟩
  exact h fuel

section Leaves

variable {rest : Text}

lemma results_void (h : Behind rest) : Results address (toText isprint .void ++ rest) (.ok (.undef, rest)) := by
  refine results_succ fun fuel => ?_
  have hparse : parseYcp address (fuel + 1) (ascii "nil" ++ rest) = some (.ok (.undef, restOfLine rest)) := rfl
  rw [toText, hparse, h.restOfLine]

/-- What Perl has for a boolean. -/
def perlBoolean (b : Bool) : PerlValue := .scalar (.ofBytes (ascii (if b then "1" else "0")))

lemma results_boolean (b : Bool) (h : Behind rest) :
    Results address (toText isprint (.boolean b) ++ rest) (.ok (perlBoolean b, rest)) := by
  refine results_succ fun fuel => ?_
  cases b with
  | true =>
    have hparse : parseYcp address (fuel + 1) (ascii "true" ++ rest) =
        some (.ok (perlBoolean true, restOfLine rest)) := rfl
    rw [toText, if_pos rfl, hparse, h.restOfLine]
  | false =>
    have hparse : parseYcp address (fuel + 1) (ascii "false" ++ rest) =
        some (.ok (perlBoolean false, restOfLine rest)) := rfl
    rw [toText, if_neg Bool.false_ne_true, hparse, h.restOfLine]

/-- The digits of a number with a sign or without one, up to a byte that no number goes on with. -/
lemma matchNumber_append {digits : Text} (hne : digits ≠ []) (hdigits : ∀ c ∈ digits, isDigit c = true)
    (hrest : Behind rest) (minus : Bool) :
    matchNumber ((if minus then 45 :: digits else digits) ++ rest) =
      some (if minus then 45 :: digits else digits, rest) := by
  obtain ⟨-, d, r, rfl, hd⟩ := hrest
  have hlongest := longest_append r hdigits (isDigit_stop (isStop_of_isDelimiter hd))
  cases minus with
  | true =>
    rw [if_pos rfl, List.cons_append]
    simp only [matchNumber, List.head?_cons, if_true, List.length_singleton, List.drop_one, List.tail_cons, hlongest,
      if_neg hne, List.singleton_append]
  | false =>
    obtain ⟨c, t, rfl⟩ := List.exists_cons_of_ne_nil hne
    have hc : isDigit c = true := hdigits c List.mem_cons_self
    have hminus : c ≠ 45 := by
      rintro rfl
      cases hc
    have hhead : (c :: t ++ d :: r).head? ≠ some 45 := by simpa using hminus
    rw [if_neg Bool.false_ne_true]
    simp only [matchNumber, if_neg hhead, List.length_nil, List.drop_zero, hlongest, if_neg hne, List.nil_append]

lemma integerToText_eq (i : Int64) :
    integerToText i = if decide (i.toInt < 0) then 45 :: decimal i.toInt.natAbs else decimal i.toInt.natAbs := by
  by_cases hneg : i.toInt < 0
  · rw [integerToText, if_pos hneg, if_pos (decide_eq_true hneg)]
  · rw [integerToText, if_neg hneg, if_neg (by simpa using hneg)]

/-- Only zero is printed with a zero in front. -/
lemma perlNumber_integerToText (i : Int64) : perlNumber (integerToText i) = integerToText i := by
  by_cases hzero : i.toInt = 0
  · have htext : integerToText i = [48] := by
      rw [integerToText, hzero]
      rfl
    rw [htext]
    rfl
  · have hhead : (integerToText i).head? ≠ some 48 := by
      rw [integerToText]
      split
      · simp
      · exact head_decimal (Int.natAbs_ne_zero.mpr hzero)
    rw [perlNumber, if_neg hhead]

lemma results_integer (i : Int64) (h : Behind rest) :
    Results address (toText isprint (.integer i) ++ rest)
      (.ok (.scalar (.ofBytes (integerToText i)), rest)) := by
  refine results_succ fun fuel => ?_
  have hmatch : matchNumber (integerToText i ++ rest) = some (integerToText i, rest) := by
    rw [integerToText_eq]
    exact matchNumber_append (decimal_ne_nil _) (isDigit_decimal _) h _
  obtain ⟨c, t, ht, hc⟩ : ∃ c t, integerToText i = c :: t ∧ (isDigit c = true ∨ c = 45) := by
    rw [integerToText]
    split
    · exact ⟨45, _, rfl, .inr rfl⟩
    · obtain ⟨c, t, ht⟩ := List.exists_cons_of_ne_nil (decimal_ne_nil i.toInt.natAbs)
      exact ⟨c, t, ht, .inl (isDigit_decimal _ c (by rw [ht]; exact List.mem_cons_self))⟩
  have hspace : isspace c = false := by
    rcases hc with hc | rfl
    · exact isspace_of_isDigit hc
    · rfl
  have hword {w : UInt8} (word : Text) (hw : isDigit w = false) (hw' : w ≠ 45) :
      (w :: word).isPrefixOf (c :: (t ++ rest)) = false := by
    have hne : w ≠ c := by
      rintro rfl
      rcases hc with hc | hc
      · rw [hw] at hc
        cases hc
      · exact hw' hc
    rw [List.isPrefixOf, beq_eq_false_iff_ne.mpr hne, Bool.false_and]
  have hnil : (ascii "nil").isPrefixOf (c :: (t ++ rest)) = false := hword [105, 108] rfl (by decide)
  have hfalse : (ascii "false").isPrefixOf (c :: (t ++ rest)) = false := hword [97, 108, 115, 101] rfl (by decide)
  have htrue : (ascii "true").isPrefixOf (c :: (t ++ rest)) = false := hword [114, 117, 101] rfl (by decide)
  have hperl := perlNumber_integerToText i
  rw [ht] at hmatch hperl
  rw [toText, ht, List.cons_append, parseYcp, eatWhitespaces_cons hspace]
  rw [List.cons_append] at hmatch
  simp only [hnil, hfalse, htrue, hmatch, Bool.false_eq_true, if_false, hperl, h.restOfLine]

lemma results_string (v : Text) (h : Behind rest) :
    Results address (toText isprint (.string v) ++ rest) (.ok (.scalar (.ofBytes (cut v)), rest)) := by
  refine results_succ fun fuel => ?_
  have hparse : parseYcpString (stringToText v ++ rest) = .ok ((cut v).map UInt8.toNat, restOfLine rest) := by
    rw [parseYcpString, stringToText, List.cons_append, List.append_assoc, List.singleton_append, List.head?_cons,
      if_pos rfl, List.drop_one, List.tail_cons, parseYcpLoop_flatMap_escapeChar, List.nil_append]
    rfl
  have hread : readString (stringToText v ++ rest) = .ok (.scalar (.ofBytes (cut v)), rest) := by
    rw [readString, hparse, ← PerlString.ofCodes_bytes, h.restOfLine]
  rw [toText]
  rw [stringToText, List.cons_append] at hread ⊢
  rw [parseYcp_other rfl (by decide) (by decide), if_pos rfl, hread]

lemma byteblockLoop_blank (ret : List UInt8) {t : Text} (ht : t ≠ []) :
    byteblockLoop ret (32 :: t) = byteblockLoop ret t := by
  obtain ⟨c, t, rfl⟩ := List.exists_cons_of_ne_nil ht
  rfl

lemma byteblockLoop_byte (ret : List UInt8) (b : UInt8) (t : Text) :
    byteblockLoop ret (hexDigit (b.toNat / 16) :: hexDigit (b.toNat % 16) :: t) = byteblockLoop (ret ++ [b]) t := by
  have hb := b.toNat_lt
  have hhigh := hexDigit_spec (b.toNat / 16) (by omega)
  have hlow := hexDigit_spec (b.toNat % 16) (by omega)
  have hplain : ∀ n < 16, hexDigit n ≠ 93 ∧ isspace (hexDigit n) = false := by decide
  obtain ⟨hclose, hspace⟩ := hplain (b.toNat / 16) (by omega)
  have hvalue : UInt8.ofNat (b.toNat / 16 * 16 + b.toNat % 16) = b := by
    rw [Nat.div_add_mod']
    exact UInt8.ofNat_toNat
  rw [byteblockLoop, if_neg hclose, hspace, if_neg Bool.false_ne_true, hhigh.1, hlow.1, Bool.and_self, if_pos rfl,
    hhigh.2.1, hlow.2.1, hvalue]

lemma byteblockLoop_bytesToText (bytes ret : List UInt8) (position : Nat) (h : Behind rest) :
    byteblockLoop ret (bytesToText position bytes ++ 93 :: rest) = .ok (ret ++ bytes, rest) := by
  induction bytes generalizing ret position with
  | nil =>
    have heat := h.eatWhitespaces
    obtain ⟨-, d, r, rfl, -⟩ := h
    rw [bytesToText, List.append_nil, List.nil_append, byteblockLoop, if_pos rfl, heat]
  | cons b bytes ih =>
    rw [bytesToText, List.cons_append, List.cons_append, byteblockLoop_byte]
    split
    · rw [List.cons_append, byteblockLoop_blank _ (by simp), ih, List.append_assoc, List.singleton_append]
    · rw [ih, List.append_assoc, List.singleton_append]

lemma eatWhitespaces_bytesToText (position : Nat) (bytes : List UInt8) (rest : Text) :
    eatWhitespaces (bytesToText position bytes ++ 93 :: rest) = bytesToText position bytes ++ 93 :: rest := by
  cases bytes with
  | nil => rfl
  | cons b bytes =>
    have hplain : ∀ n < 16, isspace (hexDigit n) = false := by decide
    have hb := b.toNat_lt
    exact eatWhitespaces_cons (hplain (b.toNat / 16) (by omega)) _

lemma results_byteblock (bytes : List UInt8) (h : Behind rest) :
    Results address (toText isprint (.byteblock bytes) ++ rest) (.ok (.scalar (.ofBytes bytes), rest)) := by
  refine results_succ fun fuel => ?_
  have htext : toText isprint (.byteblock bytes) ++ rest = 35 :: 91 :: (bytesToText 0 bytes ++ 93 :: rest) := by
    rw [toText, List.append_assoc, List.append_assoc, List.singleton_append]
    rfl
  have hblock : parseYcpByteblock (35 :: 91 :: (bytesToText 0 bytes ++ 93 :: rest)) =
      .ok (.scalar (.ofBytes bytes), rest) := by
    have hdrop : (35 :: 91 :: (bytesToText 0 bytes ++ 93 :: rest)).drop 2 = bytesToText 0 bytes ++ 93 :: rest := rfl
    rw [parseYcpByteblock, hdrop, eatWhitespaces_bytesToText, byteblockLoop_bytesToText bytes [] 0 h, List.nil_append]
  rw [htext, parseYcp_other rfl (by decide) (by decide), hblock]
  rfl

lemma isSimplePathChar_stop {d : UInt8} (hd : isDelimiter d = true ∨ d = 46) : isSimplePathChar d = false := by
  rcases hd with hd | rfl
  · rcases delimiter_cases hd with rfl | rfl | rfl | rfl <;> rfl
  · rfl

/-- Perl takes any printed component for a segment. -/
lemma perlSegment_toText (isprint : UInt8 → Bool) (c : PathComponent) {d : UInt8} (hd : isDelimiter d = true ∨ d = 46) (r : Text) :
    perlSegment (c.toText isprint ++ d :: r) = some (c.toText isprint, d :: r) := by
  rw [PathComponent.toText]
  cases hcomplex : c.complex with
  | true =>
    rw [if_pos rfl, List.cons_append, List.append_assoc, List.singleton_append, perlSegment, if_pos rfl,
      scanQuoted_flatMap]
    rfl
  | false =>
    rw [if_neg Bool.false_ne_true]
    obtain ⟨hne, hchars, -⟩ := simpleComponent_spec (c.simple_text hcomplex)
    have hlongest := longest_append r hchars (isSimplePathChar_stop hd)
    obtain ⟨a, t, hat⟩ := List.exists_cons_of_ne_nil hne
    have hquote : a ≠ 34 := by
      rintro rfl
      have hsimple := hchars 34 (by rw [hat]; exact List.mem_cons_self)
      cases hsimple
    rw [hat, List.cons_append] at hlongest ⊢
    rw [perlSegment, if_neg hquote]
    simp only [hlongest, if_neg (List.cons_ne_nil a t)]

lemma perlSegments_toText (isprint : UInt8 → Bool) (p : List PathComponent) {d : UInt8} (hd : isDelimiter d = true) (r : Text) (n : Nat)
    (hn : p.length < n) :
    perlSegments n ((p.flatMap fun c => 46 :: c.toText isprint) ++ d :: r) =
      (p.flatMap fun c => 46 :: c.toText isprint, d :: r) := by
  induction p generalizing n with
  | nil =>
    obtain ⟨n, rfl⟩ : ∃ m, n = m + 1 := ⟨n - 1, by omega⟩
    have hdot : (d :: r).head? ≠ some 46 := by
      rcases delimiter_cases hd with rfl | rfl | rfl | rfl <;> simp
    rw [List.flatMap_nil, List.nil_append, perlSegments, if_neg hdot]
  | cons c p ih =>
    rw [List.length_cons] at hn
    obtain ⟨n, rfl⟩ : ∃ m, n = m + 1 := ⟨n - 1, by omega⟩
    have hnext : ∃ e u, (p.flatMap fun c => 46 :: c.toText isprint) ++ d :: r = e :: u ∧
        (isDelimiter e = true ∨ e = 46) := by
      cases p with
      | nil => exact ⟨d, r, rfl, .inl hd⟩
      | cons c' p => exact ⟨46, _, rfl, .inr rfl⟩
    obtain ⟨e, u, hnext, he⟩ := hnext
    have hsegment := perlSegment_toText isprint c he u
    rw [List.flatMap_cons, List.cons_append, List.cons_append, List.append_assoc, perlSegments, List.head?_cons,
      if_pos rfl, List.drop_one, List.tail_cons, hnext, hsegment]
    simp only
    rw [← hnext, ih n (by omega)]

lemma length_le_flatMap (isprint : UInt8 → Bool) (p : List PathComponent) :
    p.length ≤ (p.flatMap fun c => 46 :: c.toText isprint).length := by
  induction p with
  | nil => exact Nat.le_refl _
  | cons c p ih =>
    rw [List.flatMap_cons, List.length_append, List.length_cons, List.length_cons]
    omega

lemma results_path (p : List PathComponent) (h : Behind rest) :
    Results address (toText isprint (.path p) ++ rest) (.ok (.ref (.ofBytes (pathToText isprint p)), rest)) := by
  refine results_succ fun fuel => ?_
  have hline := h.restOfLine
  obtain ⟨-, d, r, rfl, hd⟩ := h
  have hpath : perlPath (pathToText isprint p ++ d :: r) = (pathToText isprint p, d :: r) := by
    cases p with
    | nil =>
      have hnone : perlSegment (d :: r) = none := by
        have hsimple := isSimplePathChar_stop (.inl hd)
        rcases delimiter_cases hd with rfl | rfl | rfl | rfl <;> simp [perlSegment, longest, hsimple]
      have htext : pathToText isprint [] ++ d :: r = 46 :: d :: r := rfl
      rw [htext, perlPath, List.length_cons, perlSegments, List.head?_cons, if_pos rfl, List.drop_one, List.tail_cons,
        hnone]
      rfl
    | cons c p =>
      have htext : pathToText isprint (c :: p) = (c :: p).flatMap fun c => 46 :: c.toText isprint :=
        if_neg (List.cons_ne_nil c p)
      have hle := length_le_flatMap isprint (c :: p)
      have hsegments := perlSegments_toText isprint (c :: p) hd r
        (pathToText isprint (c :: p) ++ d :: r).length (by
          rw [htext, List.length_append, List.length_cons (a := d)]
          omega)
      rw [← htext] at hsegments
      rw [perlPath, hsegments]
      simp only [htext, List.flatMap_cons, List.cons_append, reduceCtorEq, if_false]
  obtain ⟨t, ht⟩ := pathToText_cons isprint p
  rw [toText]
  rw [ht, List.cons_append] at hpath ⊢
  rw [parseYcp_other rfl (by decide) (by decide), if_neg (by decide), if_pos rfl, hpath, hline, ← ht]

/-- A quoted symbol and a term begin with a character that Perl does not know. -/
lemma results_backquote (t : Text) : Results address (96 :: t) (.error (.notSupported, 96 :: t)) :=
  results_succ fun fuel => by
    rw [parseYcp_other rfl (by decide) (by decide)]
    rfl

end Leaves

/-! ### What Perl has for a value -/

section

variable (isprint : UInt8 → Bool) (address : PerlValue → PerlString)

mutual

/-- What is read for a value; there is nothing for symbols and terms. -/
def perlOf : YCPValue → Option PerlValue
  | .void => some .undef
  | .boolean b => some (perlBoolean b)
  | .integer i => some (.scalar (.ofBytes (integerToText i)))
  | .string v => some (.scalar (.ofBytes (cut v)))
  | .byteblock bytes => some (.scalar (.ofBytes bytes))
  | .path p => some (.ref (.ofBytes (pathToText isprint p)))
  | .list l => (perlOfList l).map .array
  | .map m => (perlOfEntries [] m).map .hash
  | _ => none

def perlOfList : List YCPValue → Option (List PerlValue)
  | [] => some []
  | v :: l => (perlOf v).bind fun x => (perlOfList l).map fun xs => x :: xs

/-- The entries are stored one after the other: keys that look alike in Perl become one. -/
def perlOfEntries (ret : List (PerlString × PerlValue)) :
    List (YCPValue × YCPValue) → Option (List (PerlString × PerlValue))
  | [] => some ret
  | (key, value) :: m => (perlOf key).bind fun k => (perlOf value).bind fun x =>
      perlOfEntries (store (keyOf address k) x ret) m

end

end

/-- Values whose symbols are those of the scanner. -/
inductive Printable : YCPValue → Prop where
  | void : Printable .void
  | boolean (b : Bool) : Printable (.boolean b)
  | integer (i : Int64) : Printable (.integer i)
  | string (v : Text) : Printable (.string v)
  | byteblock (bytes : List UInt8) : Printable (.byteblock bytes)
  | path (p : List PathComponent) : Printable (.path p)
  | symbol {name : Text} (isName : isSymbolName name = true) : Printable (.symbol name)
  | list {l : List YCPValue} (elements : ∀ v ∈ l, Printable v) : Printable (.list l)
  | term {name : Text} {l : List YCPValue} (isName : isSymbolName name = true) (args : ∀ v ∈ l, Printable v) :
      Printable (.term name l)
  | map {m : List (YCPValue × YCPValue)} (keys : ∀ e ∈ m, Printable e.1) (values : ∀ e ∈ m, Printable e.2) :
      Printable (.map m)

lemma Printable.oneLine {v : YCPValue} (h : Printable v) : OneLine (toText isprint v) := by
  have hclose : OneLine [93] := oneLine_nil.cons (by decide)
  induction h with
  | void => exact oneLine_nil.cons (by decide) |>.cons (by decide) |>.cons (by decide)
  | boolean b =>
    cases b with
    | true =>
      exact oneLine_nil.cons (by decide) |>.cons (by decide) |>.cons (by decide) |>.cons (by decide)
    | false =>
      exact oneLine_nil.cons (by decide) |>.cons (by decide) |>.cons (by decide) |>.cons (by decide)
        |>.cons (by decide)
  | integer i => exact oneLine_integerToText i
  | string v => exact oneLine_stringToText v
  | byteblock bytes => exact (((oneLine_bytesToText bytes 0).append hclose).cons (by decide)).cons (by decide)
  | path p => exact oneLine_pathToText isprint p
  | symbol hname => exact (oneLine_symbolName hname).cons (by decide)
  | list _ ih => exact ((oneLine_commaList ih).append hclose).cons (by decide)
  | term hname _ ih =>
    have hparen : OneLine [41] := oneLine_nil.cons (by decide)
    have hargs := (oneLine_commaList ih).append hparen
    exact ((oneLine_symbolName hname).append ((hargs.cons (by decide)).cons (by decide))).cons (by decide)
  | map _ _ ihkeys ihvalues =>
    refine (((oneLine_entryList fun e he => ?_).append hclose).cons (by decide)).cons (by decide)
    exact oneLine_entryText (ihkeys e he) (ihvalues e he)

/-- No value begins with a blank or with what ends one. -/
lemma Printable.head {v : YCPValue} (h : Printable v) (isprint : UInt8 → Bool) :
    ∃ c t, toText isprint v = c :: t ∧ isspace c = false ∧ isDelimiter c = false := by
  cases h with
  | void => exact ⟨_, _, rfl, rfl, rfl⟩
  | boolean b => cases b <;> exact ⟨_, _, rfl, rfl, rfl⟩
  | integer i =>
    rw [toText, integerToText]
    split
    · exact ⟨_, _, rfl, rfl, rfl⟩
    · obtain ⟨c, t, ht⟩ := List.exists_cons_of_ne_nil (decimal_ne_nil i.toInt.natAbs)
      have hdigit := isDigit_decimal i.toInt.natAbs c (by rw [ht]; exact List.mem_cons_self)
      refine ⟨c, t, ht, isspace_of_isDigit hdigit, ?_⟩
      rw [Bool.eq_false_iff]
      intro hd
      rw [isDigit_stop (isStop_of_isDelimiter hd)] at hdigit
      cases hdigit
  | string v => exact ⟨_, _, rfl, rfl, rfl⟩
  | byteblock bytes => exact ⟨_, _, rfl, rfl, rfl⟩
  | path p =>
    obtain ⟨t, ht⟩ := pathToText_cons isprint p
    exact ⟨46, t, ht, rfl, rfl⟩
  | symbol hname => exact ⟨_, _, rfl, rfl, rfl⟩
  | list _ => exact ⟨_, _, rfl, rfl, rfl⟩
  | term _ _ => exact ⟨_, _, rfl, rfl, rfl⟩
  | map _ _ => exact ⟨_, _, rfl, rfl, rfl⟩

/-! ### Lists -/

/-- What stands in a text for a value is read as the Perl value, wherever it stands; where there is none, it is
refused. -/
structure ReadByPerl (isprint : UInt8 → Bool) (address : PerlValue → PerlString) (v : YCPValue) : Prop where
  reads : ∀ x rest, perlOf isprint address v = some x → Behind rest →
    Results address (toText isprint v ++ rest) (.ok (x, rest))
  refuses : ∀ rest, perlOf isprint address v = none → Behind rest →
    ∃ t, Results address (toText isprint v ++ rest) (.error (.notSupported, t))

lemma readByPerl_leaf {v : YCPValue} {x : PerlValue} (hx : perlOf isprint address v = some x)
    (h : ∀ rest, Behind rest → Results address (toText isprint v ++ rest) (.ok (x, rest))) :
    ReadByPerl isprint address v where
  reads y rest hy hrest := by
    obtain rfl : x = y := Option.some.inj (hx.symm.trans hy)
    exact h rest hrest
  refuses rest hnone := by
    rw [hx] at hnone
    cases hnone

lemma readByPerl_backquote {v : YCPValue} {t : Text} (hnone : perlOf isprint address v = none)
    (ht : toText isprint v = 96 :: t) : ReadByPerl isprint address v where
  reads x rest hx := by
    rw [hnone] at hx
    cases hx
  refuses rest _ _ := by
    rw [ht]
    exact ⟨_, results_backquote _⟩

lemma skipComma_comma {t : Text} {c : UInt8} (hc : isspace c = false) :
    skipComma (44 :: 32 :: c :: t) = (true, c :: t) := by
  have heat : eatWhitespaces (32 :: c :: t) = c :: t := by
    have hblank : eatWhitespaces (32 :: c :: t) = eatWhitespaces (c :: t) := rfl
    rw [hblank, eatWhitespaces_cons hc]
  simp only [skipComma, eatWhitespaces_cons (show isspace 44 = false from rfl), List.head?_cons, if_true, List.drop_one,
    List.tail_cons, heat]

lemma skipComma_close {c : UInt8} (hc : isspace c = false) (hne : c ≠ 44) (t : Text) :
    skipComma (c :: t) = (false, c :: t) := by
  have hhead : (c :: t).head? ≠ some 44 := by simpa using hne
  simp only [skipComma, eatWhitespaces_cons hc, if_neg hhead]

/-- Behind an element: a comma, or the bracket of its list. -/
lemma behind_commaTail {l : List YCPValue} (hl : ∀ v ∈ l, Printable v) {close : UInt8}
    (hclose : close = 93 ∨ close = 41) {rest : Text} (hrest : newline ∉ rest) :
    Behind (commaTail isprint l ++ close :: rest) := by
  have hline : OneLine (commaTail isprint l) := oneLine_commaTail fun v hv => (hl v hv).oneLine
  have hnewline : newline ≠ close := by rcases hclose with rfl | rfl <;> decide
  constructor
  · rw [List.mem_append, List.mem_cons, not_or, not_or]
    exact ⟨fun hmem => (hline _ hmem).2 rfl, hnewline, hrest⟩
  · cases l with
    | nil => exact ⟨close, rest, rfl, by rcases hclose with rfl | rfl <;> rfl⟩
    | cons v l => exact ⟨44, _, rfl, rfl⟩

section Loop

variable {parse : Text → Read PerlValue} {close : UInt8} {description : String} {ret : List PerlValue}
  {seen_elem seen_comma : Bool} {t rest : Text}

lemma genericListLoop_close (k : Nat) :
    genericListLoop parse description close (k + 1) ret seen_elem seen_comma (close :: rest) =
      some (.ok (ret, eatWhitespaces rest)) := by
  rw [genericListLoop, List.head?_cons, if_pos rfl, List.drop_one, List.tail_cons]

lemma genericListLoop_elem {elem : PerlValue} (hhead : t.head? ≠ some close)
    (hseen : (seen_elem && !seen_comma) = false) (hparse : parse t = some (.ok (elem, rest))) (k : Nat) :
    genericListLoop parse description close (k + 1) ret seen_elem seen_comma t =
      genericListLoop parse description close k (ret ++ [elem]) true (skipComma rest).1 (skipComma rest).2 := by
  rw [genericListLoop, if_neg hhead, hseen, if_neg Bool.false_ne_true, hparse]

lemma genericListLoop_error {e : ReadError × Text} (hhead : t.head? ≠ some close)
    (hseen : (seen_elem && !seen_comma) = false) (hparse : parse t = some (.error e)) (k : Nat) :
    genericListLoop parse description close (k + 1) ret seen_elem seen_comma t = some (.error e) := by
  rw [genericListLoop, if_neg hhead, hseen, if_neg Bool.false_ne_true, hparse]

end Loop

/-- The result of a list: the elements behind those that were read before, or a refusal. -/
def ListResult (ret : List PerlValue) (xs : Option (List PerlValue)) (rest : Text)
    (r : Except (ReadError × Text) (List PerlValue × Text)) : Prop :=
  match xs with
  | some xs => r = .ok (ret ++ xs, eatWhitespaces rest)
  | none => ∃ t, r = .error (.notSupported, t)

section Elements

variable {close : UInt8} {rest : Text} {l : List YCPValue}

/-- With enough fuel the loop reads the elements from here on. -/
def LoopReads (isprint : UInt8 → Bool) (address : PerlValue → PerlString) (description : String) (close : UInt8)
    (ret : List PerlValue) (seen_elem seen_comma : Bool) (t : Text) (l : List YCPValue) (rest : Text) : Prop :=
  ∃ r, ListResult ret (perlOfList isprint address l) rest r ∧ ∃ n, ∀ fuel, n ≤ fuel → ∀ k, l.length < k →
    genericListLoop (parseYcp address fuel) description close k ret seen_elem seen_comma t = some r

/-- One element, given the elements behind it. -/
lemma loopReads_cons {description : String} {ret : List PerlValue} {seen_elem seen_comma : Bool} {v : YCPValue}
    {after : Text} (hclose : close = 93 ∨ close = 41) (hseen : (seen_elem && !seen_comma) = false) (hv : Printable v)
    (hread : ReadByPerl isprint address v) (hafter : Behind after)
    (hl : ∀ x, LoopReads isprint address description close (ret ++ [x]) true (skipComma after).1 (skipComma after).2
      l rest) :
    LoopReads isprint address description close ret seen_elem seen_comma (toText isprint v ++ after) (v :: l) rest := by
  obtain ⟨c, t, hc, -, hdelimiter⟩ := hv.head isprint
  have hhead : (toText isprint v ++ after).head? ≠ some close := by
    rw [hc, List.cons_append, List.head?_cons]
    rintro heq
    cases heq
    rcases hclose with rfl | rfl <;> cases hdelimiter
  unfold LoopReads
  rw [perlOfList]
  cases hx : perlOf isprint address v with
  | none =>
    obtain ⟨t', n, hparse⟩ := hread.refuses _ hx hafter
    refine ⟨_, ⟨t', rfl⟩, n, fun fuel hfuel k hk => ?_⟩
    rw [List.length_cons] at hk
    obtain ⟨k, rfl⟩ : ∃ j, k = j + 1 := ⟨k - 1, by omega⟩
    exact genericListLoop_error hhead hseen (hparse fuel hfuel) k
  | some x =>
    obtain ⟨n, hparse⟩ := hread.reads x _ hx hafter
    obtain ⟨r, hr, m, hloop⟩ := hl x
    refine ⟨r, ?_, max n m, fun fuel hfuel k hk => ?_⟩
    · unfold ListResult at hr ⊢
      cases hxs : perlOfList isprint address l with
      | none =>
        rw [hxs] at hr
        exact hr
      | some xs =>
        rw [hxs] at hr
        rw [hr, List.append_assoc, List.singleton_append]
        rfl
    · rw [List.length_cons] at hk
      obtain ⟨k, rfl⟩ : ∃ j, k = j + 1 := ⟨k - 1, by omega⟩
      rw [genericListLoop_elem hhead hseen (hparse fuel (by omega))]
      exact hloop fuel (by omega) k (by omega)

/-- The elements behind one of them. -/
lemma loopReads_commaTail (hclose : close = 93 ∨ close = 41) (description : String) (hrest : newline ∉ rest)
    (hl : ∀ v ∈ l, Printable v) (hread : ∀ v ∈ l, ReadByPerl isprint address v) (ret : List PerlValue) :
    LoopReads isprint address description close ret true (skipComma (commaTail isprint l ++ close :: rest)).1
      (skipComma (commaTail isprint l ++ close :: rest)).2 l rest := by
  induction l generalizing ret with
  | nil =>
    have hskip : skipComma (commaTail isprint [] ++ close :: rest) = (false, close :: rest) := by
      rcases hclose with rfl | rfl <;> exact skipComma_close rfl (by decide) _
    refine ⟨.ok (ret, eatWhitespaces rest), by rw [perlOfList, ListResult, List.append_nil], 0, fun fuel _ k hk => ?_⟩
    obtain ⟨k, rfl⟩ : ∃ j, k = j + 1 := ⟨k - 1, by omega⟩
    rw [hskip, genericListLoop_close]
  | cons v l ih =>
    rw [List.forall_mem_cons] at hl hread
    obtain ⟨c, t, hc, hspace, -⟩ := hl.1.head isprint
    have htext : commaTail isprint (v :: l) ++ close :: rest =
        44 :: 32 :: (toText isprint v ++ (commaTail isprint l ++ close :: rest)) := by
      rw [commaTail, List.append_assoc, List.append_assoc]
      rfl
    have hskip : skipComma (commaTail isprint (v :: l) ++ close :: rest) =
        (true, toText isprint v ++ (commaTail isprint l ++ close :: rest)) := by
      rw [htext, hc, List.cons_append, skipComma_comma hspace]
    rw [hskip]
    exact loopReads_cons hclose rfl hl.1 hread.1 (behind_commaTail hl.2 hclose hrest) fun x => ih hl.2 hread.2 _

/-- All elements, behind the opening bracket. -/
lemma loopReads_commaList (hclose : close = 93 ∨ close = 41) (description : String) (hrest : newline ∉ rest)
    (hl : ∀ v ∈ l, Printable v) (hread : ∀ v ∈ l, ReadByPerl isprint address v) :
    LoopReads isprint address description close [] false false
      (eatWhitespaces (commaList isprint l ++ close :: rest)) l rest := by
  cases l with
  | nil =>
    have heat : eatWhitespaces (commaList isprint [] ++ close :: rest) = close :: rest := by
      rcases hclose with rfl | rfl <;> rfl
    refine ⟨.ok ([], eatWhitespaces rest), by rw [perlOfList, ListResult, List.append_nil], 0, fun fuel _ k hk => ?_⟩
    obtain ⟨k, rfl⟩ : ∃ j, k = j + 1 := ⟨k - 1, by omega⟩
    rw [heat, genericListLoop_close]
  | cons v l =>
    rw [List.forall_mem_cons] at hl hread
    obtain ⟨c, t, hc, hspace, -⟩ := hl.1.head isprint
    have heat : eatWhitespaces (commaList isprint (v :: l) ++ close :: rest) =
        toText isprint v ++ (commaTail isprint l ++ close :: rest) := by
      rw [commaList, List.append_assoc, hc, List.cons_append, eatWhitespaces_cons hspace]
    rw [heat]
    exact loopReads_cons hclose rfl hl.1 hread.1 (behind_commaTail hl.2 hclose hrest) fun x =>
      loopReads_commaTail hclose description hrest hl.2 hread.2 _

end Elements

lemma readByPerl_list {l : List YCPValue} (hl : ∀ v ∈ l, Printable v) (hread : ∀ v ∈ l, ReadByPerl isprint address v) :
    ReadByPerl isprint address (.list l) := by
  have hparse {rest : Text} (hrest : Behind rest) :
      ∃ r, ListResult [] (perlOfList isprint address l) rest r ∧ ∃ n, ∀ fuel, n ≤ fuel →
        parseYcp address (fuel + 1) (toText isprint (.list l) ++ rest) =
          match r with
          | .error e => some (.error e)
          | .ok (xs, rest) => some (.ok (.array xs, rest)) := by
    obtain ⟨r, hr, n, hloop⟩ := loopReads_commaList (.inl rfl) "list" hrest.1 hl hread
    refine ⟨r, hr, max n (l.length + 1), fun fuel hfuel => ?_⟩
    have hlist : parseYcpGenericList (parseYcp address fuel) fuel "list" 91 93
        (91 :: (commaList isprint l ++ 93 :: rest)) = some r := by
      rw [parseYcpGenericList, List.head?_cons, if_pos rfl, List.drop_one, List.tail_cons]
      exact hloop fuel (by omega) fuel (by omega)
    rw [toText, List.cons_append, List.append_assoc, List.singleton_append,
      parseYcp_other rfl (by decide) (by decide), if_neg (by decide), if_neg (by decide), if_pos rfl, hlist]
    cases r <;> rfl
  constructor
  · intro x rest hx hrest
    obtain ⟨r, hr, n, hparse⟩ := hparse hrest
    obtain ⟨xs, hxs, rfl⟩ := Option.map_eq_some_iff.mp hx
    rw [hxs] at hr
    obtain rfl : r = .ok ([] ++ xs, eatWhitespaces rest) := hr
    refine ⟨n + 1, fun fuel hfuel => ?_⟩
    obtain ⟨fuel, rfl⟩ : ∃ m, fuel = m + 1 := ⟨fuel - 1, by omega⟩
    rw [hparse fuel (by omega), List.nil_append, hrest.eatWhitespaces]
  · intro rest hnone hrest
    obtain ⟨r, hr, n, hparse⟩ := hparse hrest
    rw [Option.map_eq_none_iff.mp hnone] at hr
    obtain ⟨t, rfl⟩ := hr
    refine ⟨t, n + 1, fun fuel hfuel => ?_⟩
    obtain ⟨fuel, rfl⟩ : ∃ m, fuel = m + 1 := ⟨fuel - 1, by omega⟩
    rw [hparse fuel (by omega)]

/-! ### Maps -/

section Loop

variable {parse : Text → Read PerlValue} {ret : List (PerlString × PerlValue)} {seen_elem seen_comma : Bool}
  {t rest : Text}

lemma mapLoop_close (k : Nat) :
    mapLoop parse address (k + 1) ret seen_elem seen_comma (93 :: rest) = some (.ok (ret, eatWhitespaces rest)) := by
  rw [mapLoop, List.head?_cons, if_pos rfl, List.drop_one, List.tail_cons]

lemma mapLoop_error {e : ReadError × Text} (hhead : t.head? ≠ some 93) (hseen : (seen_elem && !seen_comma) = false)
    (hparse : parse t = some (.error e)) (k : Nat) :
    mapLoop parse address (k + 1) ret seen_elem seen_comma t = some (.error e) := by
  rw [mapLoop, if_neg hhead, hseen, if_neg Bool.false_ne_true, hparse]

variable {key value : PerlValue} {t' : Text}

lemma mapLoop_entry (hhead : t.head? ≠ some 93) (hseen : (seen_elem && !seen_comma) = false)
    (hkey : parse t = some (.ok (key, 58 :: t'))) (ht' : eatWhitespaces t' = t')
    (hvalue : parse t' = some (.ok (value, rest))) (k : Nat) :
    mapLoop parse address (k + 1) ret seen_elem seen_comma t =
      mapLoop parse address k (store (keyOf address key) value ret) true (skipComma rest).1 (skipComma rest).2 := by
  have hcolon : eatWhitespaces (58 :: t') = 58 :: t' := rfl
  rw [mapLoop, if_neg hhead, hseen, if_neg Bool.false_ne_true, hkey]
  simp only [hcolon, List.head?_cons, ne_eq, not_true, if_false, List.drop_one, List.tail_cons, ht', hvalue]

lemma mapLoop_valueError {e : ReadError × Text} (hhead : t.head? ≠ some 93)
    (hseen : (seen_elem && !seen_comma) = false) (hkey : parse t = some (.ok (key, 58 :: t')))
    (ht' : eatWhitespaces t' = t') (hvalue : parse t' = some (.error e)) (k : Nat) :
    mapLoop parse address (k + 1) ret seen_elem seen_comma t = some (.error e) := by
  have hcolon : eatWhitespaces (58 :: t') = 58 :: t' := rfl
  rw [mapLoop, if_neg hhead, hseen, if_neg Bool.false_ne_true, hkey]
  simp only [hcolon, List.head?_cons, ne_eq, not_true, if_false, List.drop_one, List.tail_cons, ht', hvalue]

end Loop

def MapResult (h : Option (List (PerlString × PerlValue))) (rest : Text)
    (r : Except (ReadError × Text) (List (PerlString × PerlValue) × Text)) : Prop :=
  match h with
  | some h => r = .ok (h, eatWhitespaces rest)
  | none => ∃ t, r = .error (.notSupported, t)

section Entries

variable {rest : Text} {m : List (YCPValue × YCPValue)}

/-- With enough fuel the loop reads the entries from here on. -/
def MapLoopReads (isprint : UInt8 → Bool) (address : PerlValue → PerlString) (ret : List (PerlString × PerlValue))
    (seen_elem seen_comma : Bool) (t : Text) (m : List (YCPValue × YCPValue)) (rest : Text) : Prop :=
  ∃ r, MapResult (perlOfEntries isprint address ret m) rest r ∧ ∃ n, ∀ fuel, n ≤ fuel → ∀ k, m.length < k →
    mapLoop (parseYcp address fuel) address k ret seen_elem seen_comma t = some r

/-- A key and its value are printable, and Perl reads them. -/
structure EntryByPerl (isprint : UInt8 → Bool) (address : PerlValue → PerlString) (e : YCPValue × YCPValue) : Prop where
  keyPrintable : Printable e.1
  printable : Printable e.2
  key : ReadByPerl isprint address e.1
  value : ReadByPerl isprint address e.2

lemma EntryByPerl.oneLine {e : YCPValue × YCPValue} (h : EntryByPerl isprint address e) :
    OneLine (entryText isprint e) := oneLine_entryText h.keyPrintable.oneLine h.printable.oneLine

lemma behind_entryTail (hm : ∀ e ∈ m, EntryByPerl isprint address e) (hrest : newline ∉ rest) :
    Behind (entryTail isprint m ++ 93 :: rest) := by
  have hline : OneLine (entryTail isprint m) := oneLine_entryTail fun e he => (hm e he).oneLine
  constructor
  · rw [List.mem_append, List.mem_cons, not_or, not_or]
    exact ⟨fun hmem => (hline _ hmem).2 rfl, by decide, hrest⟩
  · cases m with
    | nil => exact ⟨93, rest, rfl, rfl⟩
    | cons e m => exact ⟨44, _, rfl, rfl⟩

lemma entryText_append (e : YCPValue × YCPValue) (after : Text) :
    entryText isprint e ++ after = toText isprint e.1 ++ 58 :: (toText isprint e.2 ++ after) := by
  obtain ⟨key, value⟩ := e
  rw [entryText, List.append_assoc, List.cons_append]

/-- One entry, given the entries behind it. -/
lemma mapLoopReads_cons {ret : List (PerlString × PerlValue)} {seen_elem seen_comma : Bool} {e : YCPValue × YCPValue}
    {after : Text} (hseen : (seen_elem && !seen_comma) = false) (he : EntryByPerl isprint address e)
    (hafter : Behind after)
    (hm : ∀ h, MapLoopReads isprint address h true (skipComma after).1 (skipComma after).2 m rest) :
    MapLoopReads isprint address ret seen_elem seen_comma (entryText isprint e ++ after) (e :: m) rest := by
  obtain ⟨c, t, hc, -, hdelimiter⟩ := he.keyPrintable.head isprint
  obtain ⟨d, t', hd, hspace, -⟩ := he.printable.head isprint
  have hcolon : Behind (58 :: (toText isprint e.2 ++ after)) := by
    refine ⟨?_, 58, _, rfl, rfl⟩
    rw [List.mem_cons, List.mem_append, not_or, not_or]
    exact ⟨by decide, fun hmem => (he.printable.oneLine _ hmem).2 rfl, hafter.1⟩
  have hhead : (entryText isprint e ++ after).head? ≠ some 93 := by
    rw [entryText_append, hc, List.cons_append, List.head?_cons]
    rintro heq
    cases heq
    cases hdelimiter
  have heat : eatWhitespaces (toText isprint e.2 ++ after) = toText isprint e.2 ++ after := by
    rw [hd, List.cons_append, eatWhitespaces_cons hspace]
  unfold MapLoopReads
  rw [perlOfEntries]
  cases hkey : perlOf isprint address e.1 with
  | none =>
    obtain ⟨t'', n, hparse⟩ := he.key.refuses _ hkey hcolon
    rw [← entryText_append] at hparse
    refine ⟨_, ⟨t'', rfl⟩, n, fun fuel hfuel k hk => ?_⟩
    rw [List.length_cons] at hk
    obtain ⟨k, rfl⟩ : ∃ j, k = j + 1 := ⟨k - 1, by omega⟩
    exact mapLoop_error hhead hseen (hparse fuel hfuel) k
  | some key =>
    obtain ⟨n, hparse⟩ := he.key.reads key _ hkey hcolon
    rw [← entryText_append] at hparse
    cases hvalue : perlOf isprint address e.2 with
    | none =>
      obtain ⟨t'', j, hparse'⟩ := he.value.refuses _ hvalue hafter
      refine ⟨_, ⟨t'', rfl⟩, max n j, fun fuel hfuel k hk => ?_⟩
      rw [List.length_cons] at hk
      obtain ⟨k, rfl⟩ : ∃ j, k = j + 1 := ⟨k - 1, by omega⟩
      exact mapLoop_valueError hhead hseen (hparse fuel (by omega)) heat (hparse' fuel (by omega)) k
    | some value =>
      obtain ⟨j, hparse'⟩ := he.value.reads value _ hvalue hafter
      obtain ⟨r, hr, i, hloop⟩ := hm (store (keyOf address key) value ret)
      refine ⟨r, hr, max (max n j) i, fun fuel hfuel k hk => ?_⟩
      rw [List.length_cons] at hk
      obtain ⟨k, rfl⟩ : ∃ j, k = j + 1 := ⟨k - 1, by omega⟩
      rw [mapLoop_entry hhead hseen (hparse fuel (by omega)) heat (hparse' fuel (by omega))]
      exact hloop fuel (by omega) k (by omega)

/-- The entries behind one of them. -/
lemma mapLoopReads_entryTail (hrest : newline ∉ rest) (hm : ∀ e ∈ m, EntryByPerl isprint address e)
    (ret : List (PerlString × PerlValue)) :
    MapLoopReads isprint address ret true (skipComma (entryTail isprint m ++ 93 :: rest)).1
      (skipComma (entryTail isprint m ++ 93 :: rest)).2 m rest := by
  induction m generalizing ret with
  | nil =>
    have hskip : skipComma (entryTail isprint [] ++ 93 :: rest) = (false, 93 :: rest) :=
      skipComma_close rfl (by decide) _
    refine ⟨.ok (ret, eatWhitespaces rest), by rw [perlOfEntries, MapResult], 0, fun fuel _ k hk => ?_⟩
    obtain ⟨k, rfl⟩ : ∃ j, k = j + 1 := ⟨k - 1, by omega⟩
    rw [hskip, mapLoop_close]
  | cons e m ih =>
    rw [List.forall_mem_cons] at hm
    obtain ⟨c, t, hc, hspace, -⟩ := hm.1.keyPrintable.head isprint
    have htext : entryTail isprint (e :: m) ++ 93 :: rest =
        44 :: 32 :: (entryText isprint e ++ (entryTail isprint m ++ 93 :: rest)) := by
      rw [entryTail, List.append_assoc, List.append_assoc]
      rfl
    have hskip : skipComma (entryTail isprint (e :: m) ++ 93 :: rest) =
        (true, entryText isprint e ++ (entryTail isprint m ++ 93 :: rest)) := by
      rw [htext, entryText_append, hc, List.cons_append, skipComma_comma hspace]
    rw [hskip]
    exact mapLoopReads_cons rfl hm.1 (behind_entryTail hm.2 hrest) fun h => ih hm.2 h

/-- All entries, behind the opening bracket. -/
lemma mapLoopReads_entryList (hrest : newline ∉ rest) (hm : ∀ e ∈ m, EntryByPerl isprint address e) :
    MapLoopReads isprint address [] false false (eatWhitespaces (entryList isprint m ++ 93 :: rest)) m rest := by
  cases m with
  | nil =>
    have heat : eatWhitespaces (entryList isprint [] ++ 93 :: rest) = 93 :: rest := rfl
    refine ⟨.ok ([], eatWhitespaces rest), by rw [perlOfEntries, MapResult], 0, fun fuel _ k hk => ?_⟩
    obtain ⟨k, rfl⟩ : ∃ j, k = j + 1 := ⟨k - 1, by omega⟩
    rw [heat, mapLoop_close]
  | cons e m =>
    rw [List.forall_mem_cons] at hm
    obtain ⟨c, t, hc, hspace, -⟩ := hm.1.keyPrintable.head isprint
    have heat : eatWhitespaces (entryList isprint (e :: m) ++ 93 :: rest) =
        entryText isprint e ++ (entryTail isprint m ++ 93 :: rest) := by
      rw [entryList, List.append_assoc, entryText_append, hc, List.cons_append, eatWhitespaces_cons hspace]
    rw [heat]
    exact mapLoopReads_cons rfl hm.1 (behind_entryTail hm.2 hrest) fun h => mapLoopReads_entryTail hrest hm.2 h

end Entries

lemma readByPerl_map {m : List (YCPValue × YCPValue)} (hm : ∀ e ∈ m, EntryByPerl isprint address e) :
    ReadByPerl isprint address (.map m) := by
  have hparse {rest : Text} (hrest : Behind rest) :
      ∃ r, MapResult (perlOfEntries isprint address [] m) rest r ∧ ∃ n, ∀ fuel, n ≤ fuel →
        parseYcp address (fuel + 1) (toText isprint (.map m) ++ rest) =
          match r with
          | .error e => some (.error e)
          | .ok (h, rest) => some (.ok (.hash h, rest)) := by
    obtain ⟨r, hr, n, hloop⟩ := mapLoopReads_entryList hrest.1 hm
    refine ⟨r, hr, max n (m.length + 1), fun fuel hfuel => ?_⟩
    have htext : toText isprint (.map m) ++ rest = 36 :: 91 :: (entryList isprint m ++ 93 :: rest) := by
      rw [toText, List.append_assoc, List.append_assoc, List.singleton_append]
      rfl
    have hmap := hloop fuel (by omega) fuel (by omega)
    have hdrop : (91 :: (entryList isprint m ++ 93 :: rest)).drop 1 = entryList isprint m ++ 93 :: rest := rfl
    have hopen : (ascii "$[").isPrefixOf (36 :: 91 :: (entryList isprint m ++ 93 :: rest)) = true := rfl
    rw [htext, parseYcp_other rfl (by decide) (by decide), if_neg (by decide), if_neg (by decide), if_neg (by decide),
      if_pos hopen, hdrop, hmap]
    cases r <;> rfl
  constructor
  · intro x rest hx hrest
    obtain ⟨r, hr, n, hparse⟩ := hparse hrest
    obtain ⟨h, hh, rfl⟩ := Option.map_eq_some_iff.mp hx
    rw [hh] at hr
    obtain rfl : r = .ok (h, eatWhitespaces rest) := hr
    refine ⟨n + 1, fun fuel hfuel => ?_⟩
    obtain ⟨fuel, rfl⟩ : ∃ m, fuel = m + 1 := ⟨fuel - 1, by omega⟩
    rw [hparse fuel (by omega), hrest.eatWhitespaces]
  · intro rest hnone hrest
    obtain ⟨r, hr, n, hparse⟩ := hparse hrest
    rw [Option.map_eq_none_iff.mp hnone] at hr
    obtain ⟨t, rfl⟩ := hr
    refine ⟨t, n + 1, fun fuel hfuel => ?_⟩
    obtain ⟨fuel, rfl⟩ : ∃ m, fuel = m + 1 := ⟨fuel - 1, by omega⟩
    rw [hparse fuel (by omega)]

/-! ### Values and commands -/

/-- Perl reads every value that has no symbol and no term in it. -/
lemma Printable.readByPerl {v : YCPValue} (h : Printable v) : ReadByPerl isprint address v := by
  induction h with
  | void => exact readByPerl_leaf rfl fun rest hrest => results_void hrest
  | boolean b => exact readByPerl_leaf rfl fun rest hrest => results_boolean b hrest
  | integer i => exact readByPerl_leaf rfl fun rest hrest => results_integer i hrest
  | string v => exact readByPerl_leaf rfl fun rest hrest => results_string v hrest
  | byteblock bytes => exact readByPerl_leaf rfl fun rest hrest => results_byteblock bytes hrest
  | path p => exact readByPerl_leaf rfl fun rest hrest => results_path p hrest
  | symbol _ => exact readByPerl_backquote rfl rfl
  | list hl ih => exact readByPerl_list hl ih
  | term _ _ _ => exact readByPerl_backquote rfl rfl
  | map hkeys hvalues ihkeys ihvalues =>
    exact readByPerl_map fun e he => ⟨hkeys e he, hvalues e he, ihkeys e he, ihvalues e he⟩

end YastCore.Transport
