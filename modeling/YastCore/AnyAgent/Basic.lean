import YastCore.Transport.Scanner
import YastCore.Value.Compare

/-!
# The basic types of a syntax

The parsers of `AnyAgentBasic.cc`. Each takes the text of a line from the cursor on, and leaves the cursor
further on in the same line.
-/

namespace YastCore.AnyAgent

open Lines Transport YCPValue

/-- A parser that takes a value from the text and gives the rest, which is never more than it was. -/
structure BasicParser where
  parse : Text → Bool → YCPValue × Text
  forward : ∀ lptr optional, (parse lptr optional).2 <:+ lptr

/-- A predicate on `*lptr`, false at the end of the text. -/
def begins (p : UInt8 → Bool) (lptr : Text) : Bool := (lptr.head?.map p).getD false

/-- `atoi` for digits: the value of `strtol` as an int. -/
def atoiDigits (lptr : Text) : Int := toInt32 (min (digitsValue 10 (lptr.takeWhile isDigit)) (2 ^ 63 - 1))

/-- The number at the cursor, unless it is none or too large. -/
def ip4Part (lptr : Text) : Option ℕ :=
  let i := atoiDigits lptr
  if begins isDigit lptr ∧ 0 ≤ i ∧ i ≤ 255 then some i.toNat else none

/-- The loop of `parseIp4Number` with so many dots still to come. -/
def parseIp4Loop : ℕ → ℕ → Text → YCPValue × Text
  | 0, num, lptr =>
    match ip4Part lptr with
    | none => (void, lptr)
    | some i => (integer (Int64.ofNat (256 * num + i)), lptr.dropWhile isDigit)
  | dots + 1, num, lptr =>
    match ip4Part lptr with
    | none => (void, lptr)
    | some i =>
      match lptr.dropWhile isDigit with
      | 46 :: lptr => parseIp4Loop dots (256 * num + i) lptr
      | lptr => (void, lptr)

def parseIp4Number (lptr : Text) (_optional : Bool) : YCPValue × Text := parseIp4Loop 3 0 lptr

def parseBoolean (lptr : Text) (_optional : Bool) : YCPValue × Text :=
  if (ascii "yes").isPrefixOf lptr then (boolean true, lptr.drop 3)
  else if (ascii "no").isPrefixOf lptr then (boolean false, lptr.drop 2)
  else (null, lptr)

def parseNumber (lptr : Text) (_optional : Bool) : YCPValue × Text :=
  if begins isDigit lptr then
    (integer (signedValue (digitsValue 10 (lptr.takeWhile isDigit))), lptr.dropWhile isDigit)
  else (null, lptr)

/-- `0x` is allowed as start. -/
def skip0x : Text → Text
  | 48 :: 120 :: lptr => lptr
  | 48 :: 88 :: lptr => lptr
  | lptr => lptr

def parseHexval (lptr : Text) (_optional : Bool) : YCPValue × Text :=
  if begins isxdigit lptr then
    (integer (Int64.ofNat (digitsValue 16 ((skip0x lptr).takeWhile isxdigit))), (skip0x lptr).dropWhile isxdigit)
  else (null, lptr)

/-- The characters of a set; with `^` in front, those that are not in it. -/
def inSet : Text → UInt8 → Bool
  | 94 :: set, c => !set.contains c
  | set, c => set.contains c

/-- `*set == 0`, behind a `^`. -/
def isEmptySet : Text → Bool
  | 94 :: set => set.isEmpty
  | set => set.isEmpty

def strip (stripped s : Text) : Text :=
  ((s.dropWhile fun c => stripped.contains c).reverse.dropWhile fun c => stripped.contains c).reverse

def parseString (set : Text) (stripped : Option Text) (lptr : Text) (_optional : Bool) : YCPValue × Text :=
  let s := lptr.takeWhile (inSet set)
  if s.isEmpty && !isEmptySet set then (null, lptr)
  else (string (strip (stripped.getD []) s), lptr.dropWhile (inSet set))

/-- What `sscanf` with `%f` makes of a text. Floats are no values of this development: another value stands
for each, which is neither null nor nil. -/
structure FloatReader where
  value : Text → YCPValue
  notNull : ∀ t, (value t).isNull = false
  notVoid : ∀ t, (value t).isVoid = false

def skipPoint : Text → Text
  | 46 :: lptr => lptr
  | lptr => lptr

def parseFloat (reader : FloatReader) (lptr : Text) (_optional : Bool) : YCPValue × Text :=
  if begins (fun c => isDigit c || c == 46) lptr then
    (reader.value lptr, (skipPoint (lptr.dropWhile isDigit)).dropWhile isDigit)
  else (null, lptr)

/-- The loop of `parseHostname`: it stops at a dot that no letter follows. -/
def hostnameRest : Text → Text
  | [] => []
  | c :: lptr =>
    if isAlnum c || c == 95 || (c == 46 && begins isAlpha lptr) then hostnameRest lptr else c :: lptr

def parseHostname (lptr : Text) (_optional : Bool) : YCPValue × Text :=
  if begins isAlpha lptr then
    (string (lptr.take (lptr.length - (hostnameRest lptr).length)), hostnameRest lptr)
  else (null, lptr)

def parseUsername (lptr : Text) (_optional : Bool) : YCPValue × Text :=
  if begins isAlpha lptr then (string (lptr.takeWhile isAlnum), lptr.dropWhile isAlnum) else (null, lptr)

def parseVerbose (expected lptr : Text) (optional : Bool) : YCPValue × Text :=
  if expected.isPrefixOf lptr then (string expected, lptr.drop expected.length)
  else (if optional then void else null, lptr)

def parseSeparator (set lptr : Text) (optional : Bool) : YCPValue × Text :=
  let s := lptr.takeWhile fun c => set.contains c
  (if optional || !s.isEmpty then string s else null, lptr.dropWhile fun c => set.contains c)

/-! ### They go forward -/

lemma parseIp4Loop_forward (dots num : ℕ) (lptr : Text) : (parseIp4Loop dots num lptr).2 <:+ lptr := by
  induction dots generalizing num lptr with
  | zero =>
    rw [parseIp4Loop]
    split
    · exact List.suffix_refl _
    · exact List.dropWhile_suffix _
  | succ dots ih =>
    rw [parseIp4Loop]
    split
    · exact List.suffix_refl _
    · have hrest : lptr.dropWhile isDigit <:+ lptr := List.dropWhile_suffix _
      split
      next rest heq =>
        rw [heq] at hrest
        exact ((ih _ _).trans (List.suffix_cons _ _)).trans hrest
      next => exact hrest

lemma parseIp4Number_forward (lptr : Text) (optional : Bool) : (parseIp4Number lptr optional).2 <:+ lptr :=
  parseIp4Loop_forward 3 0 lptr

lemma parseBoolean_forward (lptr : Text) (optional : Bool) : (parseBoolean lptr optional).2 <:+ lptr := by
  rw [parseBoolean]
  split
  · exact List.drop_suffix _ _
  split
  · exact List.drop_suffix _ _
  · exact List.suffix_refl _

lemma parseNumber_forward (lptr : Text) (optional : Bool) : (parseNumber lptr optional).2 <:+ lptr := by
  rw [parseNumber]
  split
  · exact List.dropWhile_suffix _
  · exact List.suffix_refl _

lemma skip0x_suffix (lptr : Text) : skip0x lptr <:+ lptr := by
  unfold skip0x
  split
  · exact ⟨[48, 120], rfl⟩
  · exact ⟨[48, 88], rfl⟩
  · exact List.suffix_refl _

lemma parseHexval_forward (lptr : Text) (optional : Bool) : (parseHexval lptr optional).2 <:+ lptr := by
  rw [parseHexval]
  split
  · exact (List.dropWhile_suffix _).trans (skip0x_suffix lptr)
  · exact List.suffix_refl _

lemma parseString_forward (set : Text) (stripped : Option Text) (lptr : Text) (optional : Bool) :
    (parseString set stripped lptr optional).2 <:+ lptr := by
  rw [parseString]
  split
  · exact List.suffix_refl _
  · exact List.dropWhile_suffix _

lemma skipPoint_suffix (lptr : Text) : skipPoint lptr <:+ lptr := by
  unfold skipPoint
  split
  · exact List.suffix_cons _ _
  · exact List.suffix_refl _

lemma parseFloat_forward (reader : FloatReader) (lptr : Text) (optional : Bool) :
    (parseFloat reader lptr optional).2 <:+ lptr := by
  rw [parseFloat]
  split
  · exact ((List.dropWhile_suffix _).trans (skipPoint_suffix _)).trans (List.dropWhile_suffix _)
  · exact List.suffix_refl _

lemma hostnameRest_suffix (lptr : Text) : hostnameRest lptr <:+ lptr := by
  induction lptr with
  | nil => exact List.suffix_refl _
  | cons c lptr ih =>
    rw [hostnameRest]
    split
    · exact ih.trans (List.suffix_cons _ _)
    · exact List.suffix_refl _

lemma parseHostname_forward (lptr : Text) (optional : Bool) : (parseHostname lptr optional).2 <:+ lptr := by
  rw [parseHostname]
  split
  · exact hostnameRest_suffix lptr
  · exact List.suffix_refl _

lemma parseUsername_forward (lptr : Text) (optional : Bool) : (parseUsername lptr optional).2 <:+ lptr := by
  rw [parseUsername]
  split
  · exact List.dropWhile_suffix _
  · exact List.suffix_refl _

lemma parseVerbose_forward (expected lptr : Text) (optional : Bool) :
    (parseVerbose expected lptr optional).2 <:+ lptr := by
  rw [parseVerbose]
  split
  · exact List.drop_suffix _ _
  · exact List.suffix_refl _

lemma parseSeparator_forward (set lptr : Text) (optional : Bool) :
    (parseSeparator set lptr optional).2 <:+ lptr := List.dropWhile_suffix _

/-! ### The parsers -/

namespace BasicParser

def ip4Number : BasicParser := ⟨parseIp4Number, parseIp4Number_forward⟩

def boolean : BasicParser := ⟨parseBoolean, parseBoolean_forward⟩

def number : BasicParser := ⟨parseNumber, parseNumber_forward⟩

def hexval : BasicParser := ⟨parseHexval, parseHexval_forward⟩

def string (set : Text) (stripped : Option Text) : BasicParser :=
  ⟨parseString set stripped, parseString_forward set stripped⟩

def float (reader : FloatReader) : BasicParser := ⟨parseFloat reader, parseFloat_forward reader⟩

def hostname : BasicParser := ⟨parseHostname, parseHostname_forward⟩

def username : BasicParser := ⟨parseUsername, parseUsername_forward⟩

def verbose (expected : Text) : BasicParser := ⟨parseVerbose expected, parseVerbose_forward expected⟩

def separator (set : Text) : BasicParser := ⟨parseSeparator set, parseSeparator_forward set⟩

end BasicParser

end YastCore.AnyAgent
