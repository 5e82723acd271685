import YastCore.Value.Path

/-!
# The text of strings

Two printers and two readers of strings: `YCPStringRep::toString` and the start condition `str` of the
scanner, and `WriteYcpString` and `ParseYcpString` of the Perl library for agents. Strings are bytes; a
Perl string is a list of character codes.
-/

namespace YastCore.Transport

/-! ### Octal escapes -/

/-- The digits of `"%03o"`. -/
def octal3 (c : UInt8) : Text :=
  [UInt8.ofNat (48 + c.toNat / 64), UInt8.ofNat (48 + c.toNat / 8 % 8), UInt8.ofNat (48 + c.toNat % 8)]

def isOctal (c : UInt8) : Bool := 48 ≤ c && c ≤ 55

/-- As many octal digits as there are, up to a number, and the rest. -/
def octalDigits : Nat → Text → Text × Text
  | 0, t => ([], t)
  | _ + 1, [] => ([], [])
  | n + 1, d :: t =>
    if isOctal d then
      let digits := octalDigits n t
      (d :: digits.1, digits.2)
    else ([], d :: t)

def octalValue (digits : Text) : Nat := digits.foldl (fun n d => 8 * n + (d.toNat - 48)) 0

lemma length_octalDigits_le (n : Nat) (t : Text) : (octalDigits n t).2.length ≤ t.length := by
  induction n generalizing t with
  | zero => exact Nat.le_refl _
  | succ n ih =>
    cases t with
    | nil => exact Nat.le_refl _
    | cons d t =>
      unfold octalDigits
      split
      · exact Nat.le_succ_of_le (ih t)
      · exact Nat.le_refl _

lemma octalDigit_spec : ∀ k < 8, isOctal (UInt8.ofNat (48 + k)) = true ∧
    (UInt8.ofNat (48 + k)).toNat = 48 + k := by
  decide

lemma octalDigits_octal3 (c : UInt8) (rest : Text) :
    octalDigits 3 (octal3 c ++ rest) = (octal3 c, rest) := by
  have hlt := c.toNat_lt
  have h₁ := (octalDigit_spec (c.toNat / 64) (by omega)).1
  have h₂ := (octalDigit_spec (c.toNat / 8 % 8) (by omega)).1
  have h₃ := (octalDigit_spec (c.toNat % 8) (by omega)).1
  simp only [octal3, List.cons_append, List.nil_append, octalDigits, h₁, h₂, h₃, if_true]

lemma octalValue_octal3 (c : UInt8) : octalValue (octal3 c) = c.toNat := by
  have hlt := c.toNat_lt
  have h₁ := (octalDigit_spec (c.toNat / 64) (by omega)).2
  have h₂ := (octalDigit_spec (c.toNat / 8 % 8) (by omega)).2
  have h₃ := (octalDigit_spec (c.toNat % 8) (by omega)).2
  simp only [octalValue, octal3, List.foldl_cons, List.foldl_nil, h₁, h₂, h₃]
  omega

/-! ### The library -/

/-- One character of `YCPStringRep::toString`. -/
def escapeChar (c : UInt8) : Text :=
  if c = 10 then [92, 110]
  else if c = 9 then [92, 116]
  else if c = 13 then [92, 114]
  else if c = 12 then [92, 102]
  else if c = 8 then [92, 98]
  else if c < 32 then 92 :: octal3 c
  else if c = 34 ∨ c = 92 then [92, c]
  else [c]

/-- `YCPStringRep::toString` -/
def stringToText (v : Text) : Text := 34 :: ((cut v).flatMap escapeChar ++ [34])

/-- The character of an escape in the scanner; an escaped newline is left out. -/
def scanEscape (c : UInt8) : Text :=
  if c = 110 then [10]
  else if c = 116 then [9]
  else if c = 114 then [13]
  else if c = 98 then [8]
  else if c = 102 then [12]
  else if c = 10 then []
  else [c]

/-- The start condition `str` of the scanner, after the opening quote: the value of the token and what
follows the closing quote, or `none` where the input ends before. The value is copied as a C string. An
octal escape out of range is reported and left out. -/
def scanString (buffer : Text) : Text → Option (Text × Text)
  | [] => none
  | c :: text =>
    if c = 34 then some (cut buffer, text)
    else if c = 92 then
      let octal := octalDigits 3 text
      if octal.1 ≠ [] then
        let result := octalValue octal.1
        if 255 < result ∨ result = 0 then scanString buffer octal.2
        else scanString (buffer ++ [UInt8.ofNat result]) octal.2
      else
        match text with
        | [] => none
        | d :: text => scanString (buffer ++ scanEscape d) text
    else scanString (buffer ++ [c]) text
termination_by t => t.length
decreasing_by
  · have := length_octalDigits_le 3 text
    simp only [List.length_cons]
    omega
  · have := length_octalDigits_le 3 text
    simp only [List.length_cons]
    omega
  · simp only [List.length_cons]
    omega
  · simp only [List.length_cons]
    omega

/-! ### The Perl library -/

/-- The substitutions in a part of the string without backslashes. -/
def writeSubstring (substring : Text) : Text :=
  (substring.flatMap fun c => if c = 34 then [92, 34] else [c]).flatMap fun c =>
    if c ≤ 9 ∨ 11 ≤ c ∧ c ≤ 23 then 92 :: octal3 c else [c]

/-- `WriteYcpString`, on a string of bytes. -/
def writeYcpString (string : Text) : Text :=
  34 :: (([92, 92] : Text).intercalate ((string.splitOn 92).map writeSubstring) ++ [34])

/-- The errors of `ParseYcpString`. -/
inductive ParseError where
  | unexpectedEnd
  | cantHappen
deriving DecidableEq

/-- The character of an escape. -/
def perlEscape (c : UInt8) : Nat :=
  if c = 110 then 10
  else if c = 116 then 9
  else if c = 114 then 13
  else if c = 102 then 12
  else if c = 98 then 8
  else c.toNat

/-- The loop of `ParseYcpString`. Three octal digits are a code, fewer stand for themselves; what
follows the closing quote is given up to the end of the line. -/
def parseYcpLoop (ret : List Nat) : Text → Except ParseError (List Nat × Text)
  | [] => .error .unexpectedEnd
  | c :: text =>
    if c ≠ 34 ∧ c ≠ 92 then parseYcpLoop (ret ++ [c.toNat]) text
    else if c = 92 then
      let octal := octalDigits 3 text
      if octal.1.length = 3 then parseYcpLoop (ret ++ [octalValue octal.1]) octal.2
      else if octal.1 ≠ [] then parseYcpLoop (ret ++ octal.1.map UInt8.toNat) octal.2
      else
        match text with
        | [] => .error .cantHappen
        | d :: text => parseYcpLoop (ret ++ [perlEscape d]) text
    else .ok (ret, text.takeWhile (· ≠ 10))
termination_by t => t.length
decreasing_by
  · simp only [List.length_cons]
    omega
  · have := length_octalDigits_le 3 text
    simp only [List.length_cons]
    omega
  · have := length_octalDigits_le 3 text
    simp only [List.length_cons]
    omega
  · simp only [List.length_cons]
    omega

/-- `ParseYcpString` -/
def parseYcpString (ycp_value : Text) : Except ParseError (List Nat × Text) :=
  parseYcpLoop [] (if ycp_value.head? = some 34 then ycp_value.drop 1 else ycp_value)

/-! ### The scanner reads what Perl writes -/

lemma scanString_plain (buffer : Text) {c : UInt8} (text : Text) (h : c ≠ 34) (h' : c ≠ 92) :
    scanString buffer (c :: text) = scanString (buffer ++ [c]) text := by
  rw [scanString.eq_def]
  simp only [if_neg h, if_neg h']

lemma scanString_octal (buffer : Text) {c : UInt8} (text : Text) (h : c ≠ 0) :
    scanString buffer (92 :: octal3 c ++ text) = scanString (buffer ++ [c]) text := by
  have hpositive : c.toNat ≠ 0 := fun hzero => h (UInt8.toNat_inj.mp hzero)
  have hlt := c.toNat_lt
  have hdigits : octal3 c ≠ [] := by simp [octal3]
  have hrange : ¬ (255 < c.toNat ∨ c.toNat = 0) := by omega
  rw [List.cons_append, scanString.eq_def]
  simp only [octalDigits_octal3, octalValue_octal3, if_pos hdigits, if_neg hrange, UInt8.ofNat_toNat]
  rfl

lemma scanString_escape (buffer : Text) {c : UInt8} (text : Text) (h : isOctal c = false) :
    scanString buffer (92 :: c :: text) = scanString (buffer ++ scanEscape c) text := by
  have hnone : octalDigits 3 (c :: text) = ([], c :: text) := by simp [octalDigits, h]
  rw [scanString.eq_def]
  simp only [hnone]
  rfl

/-- The text of one character in Perl. -/
def writeChar (c : UInt8) : Text :=
  if c = 92 then [92, 92]
  else if c = 34 then [92, 34]
  else if c ≤ 9 ∨ 11 ≤ c ∧ c ≤ 23 then 92 :: octal3 c
  else [c]

lemma writeSubstring_cons {c : UInt8} (substring : Text) (h : c ≠ 92) :
    writeSubstring (c :: substring) = writeChar c ++ writeSubstring substring := by
  unfold writeSubstring writeChar
  rw [if_neg h, List.flatMap_cons, List.flatMap_append]
  congr 1
  split
  · simp
  · simp

/-- `WriteYcpString` character by character. -/
lemma writeYcpString_eq (string : Text) :
    writeYcpString string = 34 :: (string.flatMap writeChar ++ [34]) := by
  suffices hjoin : ([92, 92] : Text).intercalate ((string.splitOn 92).map writeSubstring) =
      string.flatMap writeChar by
    unfold writeYcpString
    rw [hjoin]
  induction string with
  | nil => rfl
  | cons c string ih =>
    rw [List.flatMap_cons, ← ih]
    obtain ⟨first, others, hsplit⟩ := List.exists_cons_of_ne_nil (List.splitOn_ne_nil 92 string)
    by_cases hc : c = 92
    · subst hc
      have hcons : List.splitOn 92 (92 :: string) = [] :: List.splitOn 92 string := by
        simp [List.splitOn, List.splitOnP_cons_eq_if_modifyHead]
      rw [hcons, hsplit]
      simp [List.intercalate, writeSubstring, writeChar]
    · have hcons : List.splitOn 92 (c :: string) = (c :: first) :: others := by
        simp only [List.splitOn] at hsplit
        simp [List.splitOn, List.splitOnP_cons_eq_if_modifyHead, hc, hsplit]
      rw [hcons, hsplit, List.map_cons, List.map_cons, writeSubstring_cons first hc]
      cases others with
      | nil => simp [List.intercalate]
      | cons second others => simp [List.intercalate]

lemma scanString_writeChar (buffer : Text) {c : UInt8} (text : Text) (h : c ≠ 0) :
    scanString buffer (writeChar c ++ text) = scanString (buffer ++ [c]) text := by
  unfold writeChar
  by_cases hbackslash : c = 92
  · subst hbackslash
    exact scanString_escape buffer text (by decide)
  rw [if_neg hbackslash]
  by_cases hquote : c = 34
  · subst hquote
    exact scanString_escape buffer text (by decide)
  rw [if_neg hquote]
  split
  · exact scanString_octal buffer text h
  · exact scanString_plain buffer text hquote hbackslash

lemma scanString_flatMap_writeChar (buffer rest : Text) {string : Text} (h : 0 ∉ string) :
    scanString buffer (string.flatMap writeChar ++ 34 :: rest) = some (cut (buffer ++ string), rest) := by
  induction string generalizing buffer with
  | nil =>
    rw [List.flatMap_nil, List.nil_append, scanString.eq_def]
    simp only [if_true, List.append_nil]
  | cons c string ih =>
    have hc : c ≠ 0 := fun hzero => h (hzero ▸ List.mem_cons_self)
    have hstring : 0 ∉ string := fun hmem => h (List.mem_cons_of_mem c hmem)
    rw [List.flatMap_cons, List.append_assoc, scanString_writeChar buffer _ hc, ih _ hstring,
      List.append_assoc]
    rfl

/-! ### Perl reads what the library writes -/

lemma parseYcpLoop_plain (ret : List Nat) {c : UInt8} (text : Text) (h : c ≠ 34) (h' : c ≠ 92) :
    parseYcpLoop ret (c :: text) = parseYcpLoop (ret ++ [c.toNat]) text := by
  rw [parseYcpLoop.eq_def]
  simp only [if_pos (And.intro h h')]

lemma parseYcpLoop_octal (ret : List Nat) (c : UInt8) (text : Text) :
    parseYcpLoop ret (92 :: octal3 c ++ text) = parseYcpLoop (ret ++ [c.toNat]) text := by
  have hlength : (octal3 c).length = 3 := rfl
  rw [List.cons_append, parseYcpLoop.eq_def]
  simp only [octalDigits_octal3, octalValue_octal3, if_pos hlength]
  rfl

lemma parseYcpLoop_escape (ret : List Nat) {c : UInt8} (text : Text) (h : isOctal c = false) :
    parseYcpLoop ret (92 :: c :: text) = parseYcpLoop (ret ++ [perlEscape c]) text := by
  have hnone : octalDigits 3 (c :: text) = ([], c :: text) := by simp [octalDigits, h]
  rw [parseYcpLoop.eq_def]
  simp only [hnone]
  rfl

lemma parseYcpLoop_escapeChar (ret : List Nat) (c : UInt8) (text : Text) :
    parseYcpLoop ret (escapeChar c ++ text) = parseYcpLoop (ret ++ [c.toNat]) text := by
  by_cases hnewline : c = 10
  · subst hnewline
    exact parseYcpLoop_escape ret text (by decide)
  by_cases htab : c = 9
  · subst htab
    exact parseYcpLoop_escape ret text (by decide)
  by_cases hreturn : c = 13
  · subst hreturn
    exact parseYcpLoop_escape ret text (by decide)
  by_cases hfeed : c = 12
  · subst hfeed
    exact parseYcpLoop_escape ret text (by decide)
  by_cases hback : c = 8
  · subst hback
    exact parseYcpLoop_escape ret text (by decide)
  by_cases hcontrol : c < 32
  · simp only [escapeChar, hnewline, htab, hreturn, hfeed, hback, hcontrol, if_true, if_false]
    exact parseYcpLoop_octal ret c text
  by_cases hquote : c = 34
  · subst hquote
    exact parseYcpLoop_escape ret text (by decide)
  by_cases hbackslash : c = 92
  · subst hbackslash
    exact parseYcpLoop_escape ret text (by decide)
  simp only [escapeChar, hnewline, htab, hreturn, hfeed, hback, hcontrol, hquote, hbackslash, or_self,
    if_false]
  exact parseYcpLoop_plain ret text hquote hbackslash

lemma parseYcpLoop_flatMap_escapeChar (ret : List Nat) (v rest : Text) :
    parseYcpLoop ret (v.flatMap escapeChar ++ 34 :: rest) =
      .ok (ret ++ v.map UInt8.toNat, rest.takeWhile (· ≠ 10)) := by
  induction v generalizing ret with
  | nil =>
    rw [List.flatMap_nil, List.nil_append, parseYcpLoop.eq_def]
    simp
  | cons c v ih =>
    rw [List.flatMap_cons, List.append_assoc, parseYcpLoop_escapeChar, ih, List.append_assoc]
    rfl

/-! ### Strings between the two -/

end YastCore.Transport
