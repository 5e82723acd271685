import YastCore.Transport.Leaves

/-!
# Hexadecimal text

`tohexstring` prints a number into a buffer of a fixed size, and `tointeger` reads the text of a number
back. Zeros that do not fit push the last digits out of the buffer; blanks after the digits do not.
-/

namespace YastCore

open Lines Transport YCPValue

/-! ### Printing -/

/-- The digit of `"%llx"`. -/
def lowerHexDigit (n : Nat) : UInt8 := if n < 10 then UInt8.ofNat (48 + n) else UInt8.ofNat (87 + n)

/-- `"%llx"` -/
def hexText (n : Nat) : Text :=
  if n = 0 then [48] else (Nat.digits 16 n).reverse.map lowerHexDigit

/-- `"%0*llx"`. A negative width pads with blanks on the other side. -/
def hexPadded (width : Int32) (n : Nat) : Text :=
  let digits := hexText n
  let padding := width.toInt.natAbs - digits.length
  if width.toInt < 0 then digits ++ List.replicate padding 32 else List.replicate padding 48 ++ digits

/-- The string in a buffer of this size after `snprintf`. A text with a length that is no `int` is not
printed, and then there is no promise about the buffer: `left` is what it holds. -/
def snprintf (left : Text) (size : Nat) (text : Text) : Text :=
  if text.length < 2 ^ 31 then text.take (size - 1) else left

/-- `64 + 3` -/
def hexBuffer : Nat := 64 + 3

def sTohexstring1 (left : Text) : Option Int64 → YCPValue
  | some i => string (snprintf left hexBuffer (48 :: 120 :: hexText i.toUInt64.toNat))
  | none => null

/-- The width is converted to `int`. -/
def sTohexstring2 (left : Text) : Option Int64 → Option Int64 → YCPValue
  | some i, some w =>
    string (snprintf left hexBuffer (48 :: 120 :: hexPadded w.toInt32 i.toUInt64.toNat))
  | _, _ => null

/-! ### Reading -/

/-- A conversion of `sscanf` into a `long long` of the digits of a base, without a sign. -/
def sscanfDigits (base : Nat) (isdigit : UInt8 → Bool) (t : Text) : Option Int64 :=
  let digits := t.takeWhile isdigit
  if digits = [] then none else some (unsignedValue (digitsValue base digits))

/-- `"%Ld"` -/
def sscanfDecimal (t : Text) : Option Int64 :=
  let t := t.dropWhile isspace
  let digits := (if t.head? = some 45 ∨ t.head? = some 43 then t.drop 1 else t).takeWhile isDigit
  if digits = [] then none
  else if t.head? = some 45 then some (Int64.ofInt (-(min (digitsValue 10 digits) (2 ^ 63) : Nat)))
  else some (signedValue (digitsValue 10 digits))

/-- `YCPIntegerRep::YCPIntegerRep (const char *)`; `none` if it is not valid. -/
def ycpIntegerRep (r : Text) : Option Int64 :=
  let r := cut r
  if r.head? = some 48 then
    if (r.drop 1).head? = some 120 then sscanfDigits 16 isxdigit (r.drop 2) else sscanfDigits 8 isOctal r
  else sscanfDecimal r

def iTointeger1 : YCPValue → YCPValue
  | integer i => integer i
  | string s => (ycpIntegerRep s).elim null integer
  | _ => null

/-! ### The digits of a number -/

lemma isxdigit_lowerHexDigit :
    ∀ d < 16, isxdigit (lowerHexDigit d) = true ∧ xdigitValue (lowerHexDigit d) = d := by
  decide

lemma isxdigit_hexText (n : Nat) : ∀ c ∈ hexText n, isxdigit c = true := by
  intro c hc
  unfold hexText at hc
  split at hc
  · rw [List.mem_singleton] at hc
    subst hc
    rfl
  · obtain ⟨d, hd, rfl⟩ := List.mem_map.mp hc
    exact (isxdigit_lowerHexDigit d (Nat.digits_lt_base (by omega) (List.mem_reverse.mp hd))).1

lemma digitsValue_hexText (n : Nat) : digitsValue 16 (hexText n) = n := by
  unfold hexText
  split
  next hn =>
    subst hn
    rfl
  · rw [digitsValue_map_digits (fun d hd => (isxdigit_lowerHexDigit d hd).2)
      (fun d hd => Nat.digits_lt_base (by omega) hd), Nat.ofDigits_digits]

lemma hexText_ne_nil (n : Nat) : hexText n ≠ [] := by
  unfold hexText
  split
  · exact List.cons_ne_nil _ _
  next hn =>
    rw [ne_eq, List.map_eq_nil_iff, List.reverse_eq_nil_iff]
    exact Nat.digits_ne_nil_iff_ne_zero.mpr hn

/-- Sixteen digits are enough for 64 bits. -/
lemma length_hexText_le {n : Nat} (hn : n < 2 ^ 64) : (hexText n).length ≤ 16 := by
  unfold hexText
  split
  · simp
  · rw [List.length_map, List.length_reverse, Nat.digits_length_le_iff (by omega)]
    calc n < 2 ^ 64 := hn
      _ = 16 ^ 16 := by norm_num

lemma unsignedValue_eq_iff {k : Nat} {n : Int64} (hk : k < 2 ^ 64) :
    unsignedValue k = n ↔ k = n.toUInt64.toNat := by
  rw [unsignedValue, Nat.min_eq_left (by omega)]
  constructor
  · rintro rfl
    exact (Nat.mod_eq_of_lt hk).symm
  · rintro rfl
    exact Int64.ofNat_bitVecToNat n.toBitVec

lemma digitsValue_zeros (k : Nat) : digitsValue 16 (List.replicate k 48) = 0 := by
  induction k with
  | zero => rfl
  | succ k ih =>
    rw [List.replicate_succ', digitsValue_append, ih, Nat.zero_mul, Nat.zero_add]
    rfl

/-! ### The padded number -/

lemma length_hexPadded (width : Int32) (n : Nat) :
    (hexPadded width n).length = max width.toInt.natAbs (hexText n).length := by
  unfold hexPadded
  dsimp only
  split
  · rw [List.length_append, List.length_replicate]
    omega
  · rw [List.length_append, List.length_replicate]
    omega

lemma hexPadded_of_neg {width : Int32} (hwidth : width.toInt < 0) (n : Nat) :
    ∃ k, hexPadded width n = hexText n ++ List.replicate k 32 :=
  ⟨_, if_pos hwidth⟩

lemma hexPadded_of_nonneg {width : Int32} (hwidth : 0 ≤ width.toInt) (n : Nat) :
    ∃ k, hexPadded width n = List.replicate k 48 ++ hexText n :=
  ⟨_, if_neg (by omega)⟩

/-- What is cut off the end of the digits of a number is lost, unless the number is zero. -/
lemma digitsValue_take_eq_iff {t : Text} {n : Nat} (ht : digitsValue 16 t = n) (k : Nat) :
    digitsValue 16 (t.take k) = n ↔ n = 0 ∨ t.length ≤ k := by
  have hsplit : digitsValue 16 (t.take k) * 16 ^ (t.drop k).length + digitsValue 16 (t.drop k) = n := by
    rw [← digitsValue_append, List.take_append_drop, ht]
  constructor
  · intro heq
    by_contra hcut
    have hlost : (t.drop k).length ≠ 0 := by
      rw [List.length_drop]
      omega
    have hlarge : 16 ^ 1 ≤ 16 ^ (t.drop k).length := Nat.pow_le_pow_right (by omega) (by omega)
    have hgrow : n * 16 ≤ n * 16 ^ (t.drop k).length := Nat.mul_le_mul_left n hlarge
    rw [heq] at hsplit
    omega
  · rintro (rfl | hlength)
    · have hpos : 0 < 16 ^ (t.drop k).length := Nat.pow_pos (by omega)
      have hzero : digitsValue 16 (t.take k) * 16 ^ (t.drop k).length = 0 := by omega
      exact (Nat.mul_eq_zero.mp hzero).resolve_right (by omega)
    · rw [List.take_of_length_le hlength, ht]

/-! ### The number read back -/

lemma ne_zero_of_isxdigit {c : UInt8} (h : isxdigit c = true) : c ≠ 0 := by
  rintro rfl
  cases h

/-- The digits after the prefix are read, and blanks after the digits are not. -/
lemma ycpIntegerRep_hex {digits : Text} (hdigits : ∀ c ∈ digits, isxdigit c = true) (hne : digits ≠ [])
    (k : Nat) :
    ycpIntegerRep (48 :: 120 :: (digits ++ List.replicate k 32)) =
      some (unsignedValue (digitsValue 16 digits)) := by
  have hcut : cut (48 :: 120 :: (digits ++ List.replicate k 32)) =
      48 :: 120 :: (digits ++ List.replicate k 32) := by
    rw [cut_eq_self]
    simp only [List.mem_cons, List.mem_append, List.mem_replicate, not_or]
    exact ⟨by decide, by decide, fun h => ne_zero_of_isxdigit (hdigits _ h) rfl, by simp⟩
  have hstop : (List.replicate k (32 : UInt8)).takeWhile isxdigit = [] := by
    cases k with
    | zero => rfl
    | succ k => rfl
  have htake : (digits ++ List.replicate k 32).takeWhile isxdigit = digits := by
    rw [List.takeWhile_append_of_pos hdigits, hstop, List.append_nil]
  have hzero : (48 :: 120 :: (digits ++ List.replicate k (32 : UInt8))).head? = some 48 := rfl
  have hx : ((48 :: 120 :: (digits ++ List.replicate k (32 : UInt8))).drop 1).head? = some 120 := rfl
  rw [ycpIntegerRep, hcut, if_pos hzero, if_pos hx, List.drop_succ_cons, List.drop_succ_cons, List.drop_zero,
    sscanfDigits, htake]
  exact if_neg hne

lemma iTointeger1_hex {digits : Text} (hdigits : ∀ c ∈ digits, isxdigit c = true) (hne : digits ≠ [])
    (k : Nat) :
    iTointeger1 (string (48 :: 120 :: (digits ++ List.replicate k 32))) =
      integer (unsignedValue (digitsValue 16 digits)) := by
  rw [iTointeger1, ycpIntegerRep_hex hdigits hne]
  rfl

lemma snprintf_hexBuffer {left t : Text} (ht : t.length + 2 < 2 ^ 31) :
    snprintf left hexBuffer (48 :: 120 :: t) = 48 :: 120 :: t.take 64 := by
  rw [snprintf, if_pos (by rw [List.length_cons, List.length_cons]; exact ht)]
  rfl

/-- Without a width every number comes back. -/
lemma iTointeger1_sTohexstring1 (left : Text) (n : Int64) :
    iTointeger1 (sTohexstring1 left (some n)) = integer n := by
  have hlt := n.toUInt64.toNat_lt
  have hlength := length_hexText_le hlt
  have hread := iTointeger1_hex (isxdigit_hexText n.toUInt64.toNat) (hexText_ne_nil _) 0
  rw [sTohexstring1, snprintf_hexBuffer (by omega), List.take_of_length_le (by omega)]
  rw [List.replicate_zero, List.append_nil, digitsValue_hexText, (unsignedValue_eq_iff hlt).mpr rfl] at hread
  exact hread

lemma iTointeger1_hexPadded_of_neg {n : Int64} {width : Int32} (hwidth : width.toInt < 0) :
    iTointeger1 (string (48 :: 120 :: (hexPadded width n.toUInt64.toNat).take 64)) = integer n := by
  have hlt := n.toUInt64.toNat_lt
  have hlength := length_hexText_le hlt
  obtain ⟨k, hk⟩ := hexPadded_of_neg hwidth n.toUInt64.toNat
  rw [hk, List.take_append, List.take_of_length_le (by omega), List.take_replicate,
    iTointeger1_hex (isxdigit_hexText _) (hexText_ne_nil _), digitsValue_hexText,
    (unsignedValue_eq_iff hlt).mpr rfl]

lemma iTointeger1_hexPadded_of_nonneg {n : Int64} {width : Int32} (hwidth : 0 ≤ width.toInt) :
    iTointeger1 (string (48 :: 120 :: (hexPadded width n.toUInt64.toNat).take 64)) = integer n ↔
      n = 0 ∨ width.toInt ≤ 64 := by
  have hlt := n.toUInt64.toNat_lt
  have hlength := length_hexText_le hlt
  have hpadded := length_hexPadded width n.toUInt64.toNat
  obtain ⟨k, hk⟩ := hexPadded_of_nonneg hwidth n.toUInt64.toNat
  set t := hexPadded width n.toUInt64.toNat with ht
  have hvalue : digitsValue 16 t = n.toUInt64.toNat := by
    rw [hk, digitsValue_append, digitsValue_zeros, Nat.zero_mul, Nat.zero_add, digitsValue_hexText]
  have hdigits : ∀ c ∈ t.take 64, isxdigit c = true := by
    intro c hc
    have hmem := List.mem_of_mem_take hc
    rw [hk, List.mem_append, List.mem_replicate] at hmem
    rcases hmem with ⟨-, rfl⟩ | hmem
    · rfl
    · exact isxdigit_hexText _ c hmem
  have hpos : 0 < (hexText n.toUInt64.toNat).length := List.length_pos_iff.mpr (hexText_ne_nil _)
  have hne : t.take 64 ≠ [] := by
    rw [← List.length_pos_iff, List.length_take]
    omega
  have hle : digitsValue 16 (t.take 64) < 2 ^ 64 := by
    have hsplit := digitsValue_append 16 (t.take 64) (t.drop 64)
    have hgrow : digitsValue 16 (t.take 64) * 1 ≤ digitsValue 16 (t.take 64) * 16 ^ (t.drop 64).length :=
      Nat.mul_le_mul_left _ (Nat.pow_pos (by omega))
    rw [List.take_append_drop, hvalue] at hsplit
    omega
  have hread := iTointeger1_hex hdigits hne 0
  rw [List.replicate_zero, List.append_nil] at hread
  rw [hread, integer.injEq, unsignedValue_eq_iff hle, digitsValue_take_eq_iff hvalue]
  have hzero : n.toUInt64.toNat = 0 ↔ n = 0 := by
    have hiff := unsignedValue_eq_iff (n := n) (show 0 < 2 ^ 64 by omega)
    exact ⟨fun h => (hiff.mpr h.symm).symm, fun h => (hiff.mp h.symm).symm⟩
  rw [hzero]
  constructor
  · rintro (rfl | hfits)
    · exact Or.inl rfl
    · exact Or.inr (by omega)
  · rintro (rfl | hfits)
    · exact Or.inl rfl
    · exact Or.inr (by omega)

/-- What is read back from the padded text. A width that does not fit the buffer loses the last digits,
and a width that no text of an `int` length has leaves the buffer as it is. -/
theorem tointeger_tohexstring_iff (left : Text) (n w : Int64) :
    iTointeger1 (sTohexstring2 left (some n) (some w)) = integer n ↔
      if w.toInt32.toInt.natAbs + 2 < 2 ^ 31 then n = 0 ∨ w.toInt32.toInt ≤ 64
      else iTointeger1 (string left) = integer n := by
  have hlength := length_hexText_le n.toUInt64.toNat_lt
  have hpadded := length_hexPadded w.toInt32 n.toUInt64.toNat
  rw [sTohexstring2]
  split
  next hwidth =>
    rw [snprintf_hexBuffer (by omega)]
    by_cases hneg : w.toInt32.toInt < 0
    · exact iff_of_true (iTointeger1_hexPadded_of_neg hneg) (Or.inr (by omega))
    · exact iTointeger1_hexPadded_of_nonneg (by omega)
  next hwidth =>
    rw [snprintf, if_neg (by rw [List.length_cons, List.length_cons]; omega)]

/-- The number 1 with 65 digits is read as 0. -/
theorem not_tointeger_tohexstring :
    ¬ ∀ (left : Text) (n w : Int64), iTointeger1 (sTohexstring2 left (some n) (some w)) = integer n := by
  intro h
  have hone := h [] 1 65
  have hlength : (hexPadded (65 : Int64).toInt32 (1 : Int64).toUInt64.toNat).length + 2 < 2 ^ 31 := by
    decide
  rw [sTohexstring2, snprintf_hexBuffer hlength, iTointeger1_hexPadded_of_nonneg (by decide)] at hone
  revert hone
  decide

end YastCore
