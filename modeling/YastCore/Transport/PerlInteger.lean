import YastCore.Transport.Leaves
import YastCore.Transport.Values

/-!
# Integers of the Perl library

`Return` of `ycp.pm` sends a scalar that looks like an integer as it is, between parentheses. The
scanner takes a leading zero for an octal number and knows no sign.
-/

namespace YastCore.Transport

open Lines

/-! ### What is sent -/

/-- `\s*-?\d+\s*`, on a string of bytes. -/
def matchesInteger (val : Text) : Bool :=
  let body := eatWhitespaces val
  let (digits, after) := longest isDigit (if body.head? = some 45 then body.drop 1 else body)
  !digits.isEmpty && after.all isspace

/-- `true` or `false`; the `$` of the pattern also matches before a newline at the end. -/
def matchesBoolean (val : Text) : Bool :=
  val ∈ [ascii "true", ascii "false", ascii "true\n", ascii "false\n"]

/-- `Return` for a scalar without `$quote_everything`. -/
def returnScalar (val : Text) : Text :=
  if matchesBoolean val || matchesInteger val then 40 :: (val ++ [41]) else writeYcpString val

/-- The parts of a text that matches. -/
structure IntegerParts where
  before : Text
  minus : Bool
  digits : Text
  after : Text
  before_blank : ∀ c ∈ before, isspace c = true
  digits_ne_nil : digits ≠ []
  digits_digit : ∀ c ∈ digits, isDigit c = true
  after_blank : ∀ c ∈ after, isspace c = true

namespace IntegerParts

def number (p : IntegerParts) : Text := p.digits ++ p.after

def signed (p : IntegerParts) : Text := if p.minus then 45 :: p.number else p.number

def text (p : IntegerParts) : Text := p.before ++ p.signed

/-- The decimal value. -/
def value (p : IntegerParts) : Int :=
  if p.minus then -(digitsValue 10 p.digits : Int) else digitsValue 10 p.digits

/-- The value is one of 64 bits. -/
def Fits (p : IntegerParts) : Prop := -2 ^ 63 ≤ p.value ∧ p.value < 2 ^ 63

/-- The digits behind the leading zeros. -/
def significant (p : IntegerParts) : Text := p.digits.dropWhile (· == 48)

/-- The scanner's reading of the digits is the decimal one: with leading zeros there is at most one
other digit, an octal one, and `atoll` gets as far as the number. -/
def ReadAlike (p : IntegerParts) : Prop :=
  (p.digits.head? = some 48 → p.significant.length ≤ 1 ∧ p.significant.all isOctal = true) ∧ p.value ≠ -2 ^ 63

end IntegerParts

/-! ### Texts that match -/

lemma isDigit_iff (c : UInt8) : isDigit c = true ↔ 48 ≤ c.toNat ∧ c.toNat ≤ 57 := by
  simp [isDigit, UInt8.le_iff_toNat_le]

lemma isspace_iff (c : UInt8) : isspace c = true ↔ c.toNat = 32 ∨ 9 ≤ c.toNat ∧ c.toNat ≤ 13 := by
  simp [isspace, UInt8.le_iff_toNat_le, ← UInt8.toNat_inj]

lemma longest_digits {digits : Text} (hdigits : ∀ c ∈ digits, isDigit c = true) {after : Text}
    (hafter : ∀ c ∈ after, isspace c = true) : longest isDigit (digits ++ after) = (digits, after) := by
  cases after with
  | nil => rw [List.append_nil, longest_eq_self hdigits]
  | cons d after =>
    have hd := (isspace_iff d).mp (hafter d List.mem_cons_self)
    have hdigit : isDigit d = false := by
      rw [Bool.eq_false_iff, ne_eq, isDigit_iff]
      omega
    exact longest_append after hdigits hdigit

lemma head_signed (p : IntegerParts) : ∃ c t, p.signed = c :: t ∧ isspace c = false := by
  obtain ⟨c, t, hdigits⟩ := List.exists_cons_of_ne_nil p.digits_ne_nil
  unfold IntegerParts.signed IntegerParts.number
  cases p.minus with
  | true => exact ⟨45, _, rfl, by decide⟩
  | false =>
    rw [hdigits]
    exact ⟨c, _, rfl, isspace_of_isDigit (p.digits_digit c (by rw [hdigits]; exact List.mem_cons_self))⟩

lemma matchesInteger_text (p : IntegerParts) : matchesInteger p.text = true := by
  obtain ⟨c, t, hsigned, hc⟩ := head_signed p
  have hbody : eatWhitespaces p.text = p.signed := by
    rw [eatWhitespaces, IntegerParts.text, List.dropWhile_append_of_pos p.before_blank, hsigned,
      List.dropWhile_cons_of_neg (by simp [hc])]
  have hnumber : (if p.signed.head? = some 45 then p.signed.drop 1 else p.signed) = p.number := by
    unfold IntegerParts.signed
    cases hminus : p.minus with
    | true => simp
    | false =>
      obtain ⟨d, r, hdigits⟩ := List.exists_cons_of_ne_nil p.digits_ne_nil
      have hd := (isDigit_iff d).mp (p.digits_digit d (by rw [hdigits]; exact List.mem_cons_self))
      have hne : d ≠ 45 := by
        rintro rfl
        exact absurd hd (by decide)
      simp [IntegerParts.number, hdigits, hne]
  simp only [matchesInteger, hbody, hnumber, IntegerParts.number, longest_digits p.digits_digit p.after_blank]
  simpa [p.digits_ne_nil] using p.after_blank

/-- Every text that matches is made of such parts. -/
lemma exists_parts {val : Text} (h : matchesInteger val = true) : ∃ p : IntegerParts, p.text = val := by
  let body := eatWhitespaces val
  let number := if body.head? = some 45 then body.drop 1 else body
  obtain ⟨hne, hafter⟩ : (longest isDigit number).1 ≠ [] ∧ ∀ c ∈ (longest isDigit number).2, isspace c = true := by
    have hparts : (!(longest isDigit number).1.isEmpty && (longest isDigit number).2.all isspace) = true := h
    simpa using hparts
  let p : IntegerParts := {
    before := val.takeWhile isspace
    minus := decide (body.head? = some 45)
    digits := (longest isDigit number).1
    after := (longest isDigit number).2
    before_blank := fun c hc => List.mem_takeWhile_imp hc
    digits_ne_nil := hne
    digits_digit := fun c hc => List.mem_takeWhile_imp hc
    after_blank := hafter }
  have hnumber : p.number = number := longest_join isDigit number
  have hsigned : p.signed = body := by
    by_cases hhead : body.head? = some 45
    · obtain ⟨t, ht⟩ := List.head?_eq_some_iff.mp hhead
      have hminus : p.minus = true := decide_eq_true hhead
      rw [IntegerParts.signed, hminus, if_pos rfl, hnumber]
      simp only [number, if_pos hhead, ht, List.drop_one, List.tail_cons]
    · have hminus : p.minus = false := decide_eq_false hhead
      rw [IntegerParts.signed, hminus, if_neg Bool.false_ne_true, hnumber]
      exact if_neg hhead
  exact ⟨p, by rw [IntegerParts.text, hsigned]; exact List.takeWhile_append_dropWhile⟩

/-- The texts that match are those of the parts. -/
theorem matchesInteger_iff (val : Text) : matchesInteger val = true ↔ ∃ p : IntegerParts, p.text = val := by
  constructor
  · exact exists_parts
  · rintro ⟨p, rfl⟩
    exact matchesInteger_text p

lemma returnScalar_text (p : IntegerParts) : returnScalar p.text = 40 :: (p.text ++ [41]) := by
  rw [returnScalar, matchesInteger_text, Bool.or_true, if_pos rfl]

/-! ### What the scanner reads -/

/-- The value of a number of digits; none for a bad octal constant. -/
def readDigits (digits : Text) : Option Int64 :=
  if digits.head? = some 48 then
    if digits.all isOctal then some (unsignedValue (digitsValue 8 digits)) else none
  else some (signedValue (digitsValue 10 digits))

lemma plainNumber_eq (digits : Text) : plainNumber digits = (readDigits digits).map .integer := by
  unfold plainNumber readDigits
  split
  · split <;> rfl
  · rfl

/-- What may follow the digits. -/
def EndsNumber (d : UInt8) : Prop := isspace d = true ∨ d = 41

lemma EndsNumber.spec {d : UInt8} (h : EndsNumber d) :
    isDigit d = false ∧ d ≠ 120 ∧ ∀ r, isFloatTail (d :: r) = false := by
  have hd : d.toNat = 32 ∨ 9 ≤ d.toNat ∧ d.toNat ≤ 13 ∨ d.toNat = 41 := by
    rcases h with h | rfl
    · exact (isspace_iff d).mp h |>.imp id .inl
    · exact .inr (.inr rfl)
  have hne {c : UInt8} (hc : 41 < c.toNat) : d ≠ c := by
    rintro rfl
    omega
  refine ⟨?_, hne (by decide), fun r => ?_⟩
  · rw [Bool.eq_false_iff, ne_eq, isDigit_iff]
    omega
  · have h46 : d ≠ 46 := hne (by decide)
    have h101 : d ≠ 101 := hne (by decide)
    have h69 : d ≠ 69 := hne (by decide)
    cases r <;> simp [isFloatTail, h46, h101, h69]

lemma scan_digits {digits : Text} (hne : digits ≠ []) (hdigits : ∀ c ∈ digits, isDigit c = true) {d : UInt8}
    (hd : EndsNumber d) (r : Text) :
    scan (digits ++ d :: r) = (readDigits digits).map fun j => (.constant (.integer j), d :: r) := by
  obtain ⟨hdigit, hx, hfloat⟩ := hd.spec
  obtain ⟨c, t, hct⟩ := List.exists_cons_of_ne_nil hne
  have hc : isDigit c = true := hdigits c (by rw [hct]; exact List.mem_cons_self)
  have hscan : scan (digits ++ d :: r) = (scanNumber (digits ++ d :: r)).map constantToken := by
    rw [hct, List.cons_append, scan, isspace_of_isDigit hc, if_neg Bool.false_ne_true, if_pos hc]
  have hhex : ¬(digits = [48] ∧ (d :: r).head? = some 120) := fun h => hx (Option.some.inj h.2)
  rw [hscan, scanNumber, longest_append r hdigits hdigit]
  simp only [hfloat, Bool.false_eq_true, if_false, hhex, plainNumber_eq, Option.map_map]
  rfl

lemma scan_blanks {blanks : Text} (h : ∀ c ∈ blanks, isspace c = true) (t : Text) : scan (blanks ++ t) = scan t := by
  induction blanks with
  | nil => rfl
  | cons c blanks ih =>
    rw [List.cons_append, scan_space _ (h c List.mem_cons_self)]
    exact ih fun x hx => h x (List.mem_cons_of_mem c hx)

namespace IntegerParts

variable (p : IntegerParts)

/-- What the parser makes of the digits and the sign. -/
def received : Option Int64 := (readDigits p.digits).map fun j => if p.minus then -j else j

/-- The digits of a scalar with what is behind them in the stream. -/
lemma scan_number (rest : Text) :
    scan (p.number ++ 41 :: rest) =
      (readDigits p.digits).map fun j => (.constant (.integer j), p.after ++ 41 :: rest) := by
  rw [number, List.append_assoc]
  cases hafter : p.after with
  | nil => exact scan_digits p.digits_ne_nil p.digits_digit (.inr rfl) rest
  | cons d after =>
    have hd : isspace d = true := p.after_blank d (by rw [hafter]; exact List.mem_cons_self)
    exact scan_digits p.digits_ne_nil p.digits_digit (.inl hd) (after ++ 41 :: rest)

lemma reads_text {j : Int64} (h : p.received = some j) (rest : Text) :
    Reads (p.text ++ 41 :: rest) (.integer j) (p.after ++ 41 :: rest) := by
  obtain ⟨i, hread, hi⟩ := Option.map_eq_some_iff.mp h
  have hnumber := p.scan_number rest
  rw [hread, Option.map_some] at hnumber
  rw [text, List.append_assoc]
  refine Reads.congr ?_ (scan_blanks p.before_blank _)
  cases hminus : p.minus with
  | true =>
    obtain rfl : -i = j := by simpa [hminus] using hi
    rw [signed, hminus, if_pos rfl, List.cons_append]
    exact reads_negated rfl hnumber
  | false =>
    obtain rfl : i = j := by simpa [hminus] using hi
    rw [signed, hminus, if_neg Bool.false_ne_true]
    exact reads_constant hnumber rfl

/-- A bad octal constant is no expression. -/
lemma expression_text (h : p.received = none) (fuel : Nat) (heap : Heap) (rest : Text) :
    expression fuel heap (p.text ++ 41 :: rest) = none := by
  have hread : readDigits p.digits = none := by simpa [received] using h
  have hnumber := p.scan_number rest
  rw [hread, Option.map_none] at hnumber
  have hnone (fuel : Nat) (heap : Heap) : expression fuel heap (p.number ++ 41 :: rest) = none := by
    cases fuel with
    | zero => rfl
    | succ fuel => rw [expression, hnumber]
  have hsigned (fuel : Nat) (heap : Heap) : expression fuel heap (p.signed ++ 41 :: rest) = none := by
    unfold signed
    cases p.minus with
    | true =>
      cases fuel with
      | zero => rfl
      | succ fuel =>
        have hminus : scan (45 :: (p.number ++ 41 :: rest)) = some (.char 45, p.number ++ 41 :: rest) := rfl
        rw [if_pos rfl, List.cons_append, expression, hminus]
        simp only [negate, hnone]
        rfl
    | false => exact hnone fuel heap
  rw [text, List.append_assoc, expression_congr (scan_blanks p.before_blank _)]
  exact hsigned fuel heap

end IntegerParts

/-! ### What arrives -/

lemma receive_of_received {p : IntegerParts} {j : Int64} (h : p.received = some j) (rest : Text) :
    ∃ n, ∀ fuel, n ≤ fuel → receiveFromExternal fuel (returnScalar p.text ++ rest) = some (.integer j, rest) := by
  obtain ⟨n, e, hexpr, hresult⟩ := (p.reads_text h rest).code []
  refine ⟨n, fun fuel hfuel => ?_⟩
  have hopen : scan (40 :: (p.text ++ 41 :: rest)) = some (.char 40, p.text ++ 41 :: rest) := rfl
  have hclose : scan e.rest = some (.char 41, rest) := by
    rw [hresult.rest_eq, scan_blanks p.after_blank]
    rfl
  have hsent : returnScalar p.text ++ rest = 40 :: (p.text ++ 41 :: rest) := by simp [returnScalar_text]
  have hparse : parse fuel (40 :: (p.text ++ 41 :: rest)) = some { e with rest := rest } := by
    rw [parse, hopen]
    exact compactExpression_open (hexpr fuel hfuel) hclose fuel
  have hvalue := hresult.denotes.evaluate
  rw [hsent, receiveFromExternal, hparse]
  simp only [Option.bind_eq_bind, Option.bind_some, hvalue]
  rfl

lemma receive_of_bad {p : IntegerParts} (h : p.received = none) (fuel : Nat) (rest : Text) :
    receiveFromExternal fuel (returnScalar p.text ++ rest) = none := by
  have hsent : returnScalar p.text ++ rest = 40 :: (p.text ++ 41 :: rest) := by simp [returnScalar_text]
  have hopen : scan (40 :: (p.text ++ 41 :: rest)) = some (.char 40, p.text ++ 41 :: rest) := rfl
  have hparse : parse fuel (40 :: (p.text ++ 41 :: rest)) = none := by
    rw [parse, hopen]
    simp only [compactExpression, p.expression_text h fuel [] rest]
    rfl
  rw [hsent, receiveFromExternal, hparse]
  rfl

/-- Whatever follows in the stream, the next value that is received is the integer. -/
def Arrives (p : IntegerParts) : Prop :=
  ∀ rest, ∃ j : Int64, j.toInt = p.value ∧
    ∃ n, ∀ fuel, n ≤ fuel → receiveFromExternal fuel (returnScalar p.text ++ rest) = some (.integer j, rest)

lemma arrives_iff_received (p : IntegerParts) : Arrives p ↔ ∃ j, p.received = some j ∧ j.toInt = p.value := by
  constructor
  · intro h
    obtain ⟨j, hj, n, hreceive⟩ := h []
    cases hreceived : p.received with
    | none =>
      have hbad := receive_of_bad hreceived n []
      rw [hreceive n (Nat.le_refl n)] at hbad
      cases hbad
    | some i =>
      obtain ⟨m, hi⟩ := receive_of_received hreceived []
      have heq := (hreceive (max n m) (le_max_left n m)).symm.trans (hi _ (le_max_right n m))
      obtain rfl : j = i := YCPValue.integer.inj (Prod.mk.inj (Option.some.inj heq)).1
      exact ⟨j, rfl, hj⟩
  · rintro ⟨j, hreceived, hj⟩ rest
    exact ⟨j, hj, receive_of_received hreceived rest⟩

/-! ### The two readings of the digits -/

lemma digitsValue_cons (base : Nat) (d : UInt8) (t : Text) :
    digitsValue base (d :: t) = xdigitValue d * base ^ t.length + digitsValue base t := by
  have happend := digitsValue_append base [d] t
  rw [List.singleton_append] at happend
  rw [happend]
  simp [digitsValue]

lemma digitsValue_significant (base : Nat) (digits : Text) :
    digitsValue base (digits.dropWhile (· == 48)) = digitsValue base digits := by
  induction digits with
  | nil => rfl
  | cons d t ih =>
    by_cases hd : d = 48
    · subst hd
      have hzero : xdigitValue 48 = 0 := rfl
      rw [List.dropWhile_cons_of_pos rfl, ih, digitsValue_cons, hzero]
      simp
    · rw [List.dropWhile_cons_of_neg (by simpa using hd)]

lemma digitsValue_le (digits : Text) : digitsValue 8 digits ≤ digitsValue 10 digits := by
  induction digits with
  | nil => exact Nat.le_refl _
  | cons d t ih =>
    rw [digitsValue_cons, digitsValue_cons]
    have hpow : 8 ^ t.length ≤ 10 ^ t.length := Nat.pow_le_pow_left (by omega) _
    exact Nat.add_le_add (Nat.mul_le_mul_left _ hpow) ih

/-- Two digits or more make less in the base eight. -/
lemma digitsValue_lt {d : UInt8} (hd : isDigit d = true) (hne : d ≠ 48) {t : Text} (ht : t ≠ []) :
    digitsValue 8 (d :: t) < digitsValue 10 (d :: t) := by
  rw [digitsValue_cons, digitsValue_cons]
  have hpow : 8 ^ t.length < 10 ^ t.length := Nat.pow_lt_pow_left (by omega) (by simpa using ht)
  have hpos : 0 < xdigitValue d := by
    have hrange := (isDigit_iff d).mp hd
    have hne48 : d.toNat ≠ 48 := fun h => hne (UInt8.toNat_inj.mp h)
    have hvalue : xdigitValue d = d.toNat - 48 := if_pos hd
    omega
  exact Nat.add_lt_add_of_lt_of_le (Nat.mul_lt_mul_of_pos_left hpow hpos) (digitsValue_le t)

lemma all_isOctal_significant (digits : Text) :
    (digits.dropWhile (· == 48)).all isOctal = digits.all isOctal := by
  induction digits with
  | nil => rfl
  | cons d t ih =>
    by_cases hd : d = 48
    · subst hd
      have hzero : isOctal 48 = true := rfl
      rw [List.dropWhile_cons_of_pos rfl, ih, List.all_cons, hzero, Bool.true_and]
    · rw [List.dropWhile_cons_of_neg (by simpa using hd)]

namespace IntegerParts

variable {p : IntegerParts}

lemma value_eq (p : IntegerParts) :
    p.value = -(digitsValue 10 p.digits : Int) ∧ p.minus = true ∨
      p.value = digitsValue 10 p.digits ∧ p.minus = false := by
  unfold value
  cases p.minus <;> simp

lemma Fits.le (h : p.Fits) : digitsValue 10 p.digits ≤ 2 ^ 63 := by
  obtain ⟨hlow, hhigh⟩ := h
  rcases p.value_eq with ⟨hvalue, -⟩ | ⟨hvalue, -⟩ <;> omega

/-- The sign is put before the number that is read. -/
lemma toInt_signed {n : Nat} (hn : n < 2 ^ 63) :
    (if p.minus then -Int64.ofNat n else Int64.ofNat n).toInt = if p.minus then -(n : Int) else n := by
  cases p.minus with
  | true => exact Int64.toInt_neg_ofNat_of_le (by omega)
  | false => exact Int64.toInt_ofNat_of_lt hn

lemma received_decimal (h : p.Fits) (hhead : p.digits.head? ≠ some 48) :
    (∃ j, p.received = some j ∧ j.toInt = p.value) ↔ p.value ≠ -2 ^ 63 := by
  have hle := h.le
  have hreceived : p.received = some (if p.minus then -Int64.ofNat (min (digitsValue 10 p.digits) (2 ^ 63 - 1))
      else Int64.ofNat (min (digitsValue 10 p.digits) (2 ^ 63 - 1))) := by
    rw [received, readDigits, if_neg hhead]
    rfl
  rw [hreceived]
  have hlt : min (digitsValue 10 p.digits) (2 ^ 63 - 1) < 2 ^ 63 := by omega
  simp only [Option.some.injEq, exists_eq_left', toInt_signed hlt]
  obtain ⟨hlow, hhigh⟩ := h
  rcases p.value_eq with ⟨hvalue, hminus⟩ | ⟨hvalue, hminus⟩
  · rw [hvalue, hminus, if_pos rfl]
    omega
  · rw [hvalue, hminus, if_neg Bool.false_ne_true]
    omega

/-- Up to one digit behind the leading zeros has the same value in both bases. -/
lemma digitsValue_of_short (h : p.significant.length ≤ 1) :
    digitsValue 8 p.digits = digitsValue 10 p.digits ∧ digitsValue 10 p.digits ≤ 9 := by
  rw [← digitsValue_significant 8, ← digitsValue_significant 10]
  change digitsValue 8 p.significant = digitsValue 10 p.significant ∧ digitsValue 10 p.significant ≤ 9
  cases hsignificant : p.significant with
  | nil => exact ⟨rfl, Nat.zero_le _⟩
  | cons d t =>
    obtain rfl : t = [] := by simpa [hsignificant] using h
    have hmem : d ∈ p.significant := by simp [hsignificant]
    have hd : isDigit d = true := p.digits_digit d ((List.dropWhile_sublist _).mem hmem)
    have hrange := (isDigit_iff d).mp hd
    have hvalue : xdigitValue d = d.toNat - 48 := if_pos hd
    simp only [digitsValue_cons, List.length_nil, pow_zero, hvalue]
    exact ⟨rfl, by simp [digitsValue]; omega⟩

lemma digitsValue_of_long (h : 1 < p.significant.length) : digitsValue 8 p.digits < digitsValue 10 p.digits := by
  rw [← digitsValue_significant 8, ← digitsValue_significant 10]
  change digitsValue 8 p.significant < digitsValue 10 p.significant
  cases hsignificant : p.significant with
  | nil => simp [hsignificant] at h
  | cons d t =>
    have hmem : d ∈ p.significant := by simp [hsignificant]
    have hd : isDigit d = true := p.digits_digit d ((List.dropWhile_sublist _).mem hmem)
    have hdrop : p.digits.dropWhile (· == 48) = d :: t := hsignificant
    have hhead := List.head?_dropWhile_not (· == 48) p.digits
    rw [hdrop] at hhead
    refine digitsValue_lt hd (by simpa using hhead) ?_
    rintro rfl
    simp [hsignificant] at h

lemma received_octal (h : p.Fits) (hhead : p.digits.head? = some 48) :
    (∃ j, p.received = some j ∧ j.toInt = p.value) ↔
      p.significant.length ≤ 1 ∧ p.significant.all isOctal = true := by
  have hall : p.significant.all isOctal = p.digits.all isOctal := all_isOctal_significant p.digits
  rw [hall]
  by_cases hoctal : p.digits.all isOctal = true
  · have hle := h.le
    have hreceived : p.received = some (if p.minus then -Int64.ofNat (min (digitsValue 8 p.digits) (2 ^ 64 - 1))
        else Int64.ofNat (min (digitsValue 8 p.digits) (2 ^ 64 - 1))) := by
      rw [received, readDigits, if_pos hhead, if_pos hoctal]
      rfl
    have hmin : min (digitsValue 8 p.digits) (2 ^ 64 - 1) = digitsValue 8 p.digits := by
      have hle8 := digitsValue_le p.digits
      omega
    rw [hreceived, hmin]
    by_cases hshort : p.significant.length ≤ 1
    · obtain ⟨heq, hsmall⟩ := digitsValue_of_short hshort
      refine iff_of_true ⟨_, rfl, ?_⟩ ⟨hshort, hoctal⟩
      rw [heq, toInt_signed (by omega)]
      rfl
    · have hlt := digitsValue_of_long (not_le.mp hshort)
      refine iff_of_false ?_ fun hcond => hshort hcond.1
      rintro ⟨j, hj, hvalue⟩
      rw [← Option.some.inj hj, toInt_signed (by omega)] at hvalue
      rcases p.value_eq with ⟨hdecimal, hminus⟩ | ⟨hdecimal, hminus⟩
      · rw [hdecimal, hminus, if_pos rfl] at hvalue
        omega
      · rw [hdecimal, hminus, if_neg Bool.false_ne_true] at hvalue
        omega
  · refine iff_of_false ?_ fun hcond => hoctal hcond.2
    rintro ⟨j, hj, -⟩
    rw [received, readDigits, if_pos hhead, if_neg hoctal] at hj
    cases hj

lemma value_ne_of_short (h : p.significant.length ≤ 1) : p.value ≠ -2 ^ 63 := by
  have hsmall := (digitsValue_of_short h).2
  rcases p.value_eq with ⟨hvalue, -⟩ | ⟨hvalue, -⟩ <;> omega

end IntegerParts

/-- An integer of the Perl library arrives as it is exactly if the scanner's rules read its digits as
a decimal number. -/
theorem arrives_iff (p : IntegerParts) (h : p.Fits) : Arrives p ↔ p.ReadAlike := by
  rw [arrives_iff_received, IntegerParts.ReadAlike]
  by_cases hhead : p.digits.head? = some 48
  · rw [IntegerParts.received_octal h hhead]
    exact ⟨fun hcond => ⟨fun _ => hcond, IntegerParts.value_ne_of_short hcond.1⟩, fun hcond => hcond.1 hhead⟩
  · rw [IntegerParts.received_decimal h hhead]
    exact ⟨fun hvalue => ⟨fun hzero => absurd hzero hhead, hvalue⟩, And.right⟩

/-- The scalar ` -12 `. -/
def minusTwelve : IntegerParts :=
  ⟨[32], true, [49, 50], [32], List.all_eq_true.mp rfl, List.cons_ne_nil _ _, List.all_eq_true.mp rfl,
    List.all_eq_true.mp rfl⟩

theorem minusTwelve_arrives : minusTwelve.Fits ∧ (Arrives minusTwelve ↔ minusTwelve.ReadAlike) :=
  ⟨by unfold IntegerParts.Fits; decide, arrives_iff minusTwelve (by unfold IntegerParts.Fits; decide)⟩

/-- The scalar `010`. -/
def zeroTen : IntegerParts :=
  ⟨[], false, [48, 49, 48], [], List.forall_mem_nil _, List.cons_ne_nil _ _, List.all_eq_true.mp rfl,
    List.forall_mem_nil _⟩

theorem zeroTen_not_arrives : ¬∀ p : IntegerParts, p.Fits → Arrives p := by
  intro h
  obtain ⟨j, hreceived, hj⟩ := (arrives_iff_received zeroTen).mp (h zeroTen (by unfold IntegerParts.Fits; decide))
  have height : zeroTen.received = some 8 := rfl
  obtain rfl : 8 = j := Option.some.inj (height.symm.trans hreceived)
  exact absurd hj (by decide)

end YastCore.Transport
