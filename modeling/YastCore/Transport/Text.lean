import Mathlib.Data.Nat.Digits.Defs
import YastCore.Lib.Lines
import YastCore.Transport.StringText

/-!
# The text of values

`YCPValueRep::toString` of the values that are sent between components.
-/

namespace YastCore.Transport

open Lines

/-- The digits of `"%Ld"` for a number that is not negative. -/
def decimal (n : Nat) : Text :=
  if n = 0 then [48] else (Nat.digits 10 n).reverse.map fun d => UInt8.ofNat (48 + d)

def integerToText (i : Int64) : Text :=
  if i.toInt < 0 then 45 :: decimal i.toInt.natAbs else decimal i.toInt.natAbs

/-- The digits of a byteblock, from the byte at this position in its line on. A full line is followed by
a blank. -/
def bytesToText : Nat → List UInt8 → Text
  | _, [] => []
  | position, b :: bytes =>
    hexDigit (b.toNat / 16) :: hexDigit (b.toNat % 16) ::
      if position = 31 then 32 :: bytesToText 0 bytes else bytesToText (position + 1) bytes

mutual

/-- `toString`; code, entries and what else has no text that is read back are left out. -/
def toText (isprint : UInt8 → Bool) : YCPValue → Text
  | .null => ascii "(null)"
  | .void => ascii "nil"
  | .boolean v => if v then ascii "true" else ascii "false"
  | .integer v => integerToText v
  | .string v => stringToText v
  | .byteblock bytes => ascii "#[" ++ (bytesToText 0 bytes ++ [93])
  | .path components => pathToText isprint components
  | .symbol v => 96 :: v
  | .list elements => 91 :: (commaList isprint elements ++ [93])
  | .term name args => 96 :: (name ++ (ascii " (" ++ (commaList isprint args ++ [41])))
  | .map entries => ascii "$[" ++ (entryList isprint entries ++ [93])
  | _ => []

/-- `YCPListRep::commaList` -/
def commaList (isprint : UInt8 → Bool) : List YCPValue → Text
  | [] => []
  | v :: elements => toText isprint v ++ commaTail isprint elements

/-- The elements after the first one. -/
def commaTail (isprint : UInt8 → Bool) : List YCPValue → Text
  | [] => []
  | v :: elements => ascii ", " ++ (toText isprint v ++ commaTail isprint elements)

def entryList (isprint : UInt8 → Bool) : List (YCPValue × YCPValue) → Text
  | [] => []
  | e :: entries => entryText isprint e ++ entryTail isprint entries

def entryTail (isprint : UInt8 → Bool) : List (YCPValue × YCPValue) → Text
  | [] => []
  | e :: entries => ascii ", " ++ (entryText isprint e ++ entryTail isprint entries)

def entryText (isprint : UInt8 → Bool) : YCPValue × YCPValue → Text
  | (key, value) => toText isprint key ++ (58 :: toText isprint value)

end

end YastCore.Transport
