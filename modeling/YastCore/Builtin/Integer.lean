import YastCore.Value.Basic

/-!
# Integer operators

`/`, `%`, `<<` and `>>` of two integers. A C++ operation whose operands leave its behaviour undefined is
`none`; the null handle, which the caller takes for `nil`, is a result.
-/

namespace YastCore

inductive IntegerOperator where
  | div
  | mod
  | left
  | right

namespace IntegerOperator

open YCPValue

/-! ### The operations of C++ on `long long` -/

/-- The quotient, cut off towards zero, is a `long long`. -/
def QuotientFits (a b : Int64) : Prop := -2 ^ 63 ≤ a.toInt.tdiv b.toInt ∧ a.toInt.tdiv b.toInt < 2 ^ 63

instance (a b : Int64) : Decidable (QuotientFits a b) := inferInstanceAs (Decidable (_ ∧ _))

def quotient (a b : Int64) : Option Int64 :=
  if b = 0 then none
  else if QuotientFits a b then some (Int64.ofInt (a.toInt.tdiv b.toInt))
  else none

/-- The remainder is undefined where the quotient is. -/
def remainder (a b : Int64) : Option Int64 :=
  if b = 0 then none
  else if QuotientFits a b then some (Int64.ofInt (a.toInt.tmod b.toInt))
  else none

/-- A shift by a count that is negative or not less than the width is undefined. -/
def shift (op : Int64 → Int64 → Int64) (a b : Int64) : Option Int64 :=
  if b.toInt < 0 ∨ 64 ≤ b.toInt then none else some (op a b)

/-! ### The builtins -/

def iDiv : Option Int64 → Option Int64 → Option YCPValue
  | some i1, some i2 => if i2 = 0 then some null else (quotient i1 i2).map integer
  | _, _ => some null

/-- Without the test for zero that `i_div` has. -/
def iMod : Option Int64 → Option Int64 → Option YCPValue
  | some i1, some i2 => (remainder i1 i2).map integer
  | _, _ => some null

def iLeft : Option Int64 → Option Int64 → Option YCPValue
  | some i1, some i2 => (shift (· <<< ·) i1 i2).map integer
  | _, _ => some null

def iRight : Option Int64 → Option Int64 → Option YCPValue
  | some i1, some i2 => (shift (· >>> ·) i1 i2).map integer
  | _, _ => some null

def run : IntegerOperator → Option Int64 → Option Int64 → Option YCPValue
  | div => iDiv
  | mod => iMod
  | left => iLeft
  | right => iRight

/-- The operands for which the operator returns `nil` or a value. -/
def Admits : IntegerOperator → Int64 → Int64 → Prop
  | div, a, b => ¬ (a = Int64.minValue ∧ b = -1)
  | mod, a, b => b ≠ 0 ∧ ¬ (a = Int64.minValue ∧ b = -1)
  | left, _, b => 0 ≤ b.toInt ∧ b.toInt < 64
  | right, _, b => 0 ≤ b.toInt ∧ b.toInt < 64

/-! ### Where the operations are defined -/

/-- The least integer by minus one is the only quotient that is too large. -/
lemma quotientFits_iff {a b : Int64} (hb : b ≠ 0) :
    QuotientFits a b ↔ ¬ (a = Int64.minValue ∧ b = -1) := by
  have hmin := a.le_toInt
  have hmax := a.toInt_lt
  have hb0 : b.toInt ≠ 0 := fun h => hb (Int64.toInt.inj h)
  have habs := Int.natAbs_tdiv_le_natAbs a.toInt b.toInt
  have heq : a = Int64.minValue ↔ a.toInt = -2 ^ 63 := by
    rw [← Int64.toInt_minValue]
    exact Int64.toInt_inj.symm
  have hone : b = -1 ↔ b.toInt = -1 := Int64.toInt_inj.symm
  rw [heq, hone, QuotientFits]
  constructor
  · rintro ⟨-, hlt⟩ ⟨ha, hb1⟩
    rw [ha, hb1] at hlt
    exact absurd hlt (by decide)
  · intro hne
    by_cases ha : a.toInt = -2 ^ 63
    · have hb1 : b.toInt ≠ -1 := fun hb1 => hne ⟨ha, hb1⟩
      by_cases hb' : b.toInt = 1
      · rw [hb', Int.tdiv_one]
        exact ⟨hmin, hmax⟩
      · have hhalf : (a.toInt.tdiv b.toInt).natAbs ≤ a.toInt.natAbs / 2 := by
          rw [Int.natAbs_tdiv]
          apply Nat.div_le_div_left <;> omega
        omega
    · omega

lemma isSome_quotient_iff (a b : Int64) :
    (quotient a b).isSome = true ↔ b ≠ 0 ∧ ¬ (a = Int64.minValue ∧ b = -1) := by
  unfold quotient
  by_cases hb : b = 0
  · simp [hb]
  · rw [if_neg hb, ← quotientFits_iff hb]
    split <;> simp [*]

lemma isSome_remainder_iff (a b : Int64) :
    (remainder a b).isSome = true ↔ b ≠ 0 ∧ ¬ (a = Int64.minValue ∧ b = -1) := by
  rw [← isSome_quotient_iff]
  unfold remainder quotient
  split
  · rfl
  · split <;> rfl

lemma isSome_shift_iff (op : Int64 → Int64 → Int64) (a b : Int64) :
    (shift op a b).isSome = true ↔ 0 ≤ b.toInt ∧ b.toInt < 64 := by
  unfold shift
  split
  · simp
    omega
  · simp
    omega

/-- The divisor zero is tested before the division, so the least integer by minus one is left. -/
lemma isSome_iDiv_iff (a b : Int64) :
    (iDiv (some a) (some b)).isSome = true ↔ ¬ (a = Int64.minValue ∧ b = -1) := by
  rw [iDiv]
  by_cases hb : b = 0
  · rw [if_pos hb, hb]
    simp
  · rw [if_neg hb, Option.isSome_map, isSome_quotient_iff, and_iff_right hb]

/-- An operator returns `nil` or a value that C++ defines exactly for the operands it admits. -/
theorem run_defined_iff (op : IntegerOperator) (a b : Int64) :
    (op.run (some a) (some b)).isSome = true ↔ op.Admits a b := by
  cases op with
  | div => exact isSome_iDiv_iff a b
  | mod =>
    show ((remainder a b).map integer).isSome = true ↔ _
    rw [Option.isSome_map, isSome_remainder_iff]
    rfl
  | left =>
    show ((shift (· <<< ·) a b).map integer).isSome = true ↔ _
    rw [Option.isSome_map, isSome_shift_iff]
    rfl
  | right =>
    show ((shift (· >>> ·) a b).map integer).isSome = true ↔ _
    rw [Option.isSome_map, isSome_shift_iff]
    rfl

/-- `5 % 0` -/
theorem run_undefined :
    ¬ ∀ (op : IntegerOperator) (a b : Int64), (op.run (some a) (some b)).isSome = true := by
  intro h
  have hmod := h mod 5 0
  cases hmod

end IntegerOperator

end YastCore
