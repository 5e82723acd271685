import YastCore.Lib.Codec
import YastCore.Value.Container
import YastCore.Value.Path

/-!
# Values as bytecode

The primitive and the value I/O of `Bytecode.cc`, with the `toStream` methods and the stream
constructors of the value classes. A writer yields `none` when it leaves the stream in its failed
state or does not come to an end.
-/

namespace YastCore

open Codec

/-- How reading bytecode ends without a result. -/
inductive ReadFault where
  | endOfStream
  /-- memory of a negative size, or of one that has wrapped to 0, is asked for -/
  | allocation
  /-- a shift by more than the width of the type -/
  | undefinedShift
  /-- a method called through a null handle -/
  | nullHandle
  /-- a C string read past its end -/
  | overread
  /-- the exception `Bytecode::Invalid` -/
  | invalid
  /-- the program ends -/
  | exit
  | outOfFuel
deriving DecidableEq, Repr

abbrev Bytes := List UInt8

abbrev ByteReader (τ α : Type) := Codec.Reader ReadFault UInt8 τ α

namespace Bytecode

variable {τ : Type}

/-! ### Primitives -/

def writeBool (value : Bool) : Bytes := [if value then 1 else 0]

def readBool : ByteReader τ Bool := do
  let c ← next .endOfStream
  return c != 0

/-- A `u_int32_t`, least significant byte first after its size. -/
def writeInt32 (value : Nat) : Bytes := 4 :: leBytes 4 value

def readInt32 : ByteReader τ Nat := do
  let v ← takeN .endOfStream 5
  return if v.head? = some 4 then leNat (v.drop 1) else 0

/-- `writeString` and `writeUstring`. -/
def writeString (t : Text) : Bytes :=
  let len := t.length % 2 ^ 32
  writeInt32 len ++ t.take len

/-- `readString`: whether there was a text, and the text. The buffer of `len + 1` bytes is read as a
C string. -/
def readString : ByteReader τ (Bool × Text) := do
  let len ← readInt32
  if len = 0 then
    return (false, [])
  else if len + 1 = 2 ^ 32 then
    throw .allocation
  else
    let buf ← takeN .endOfStream len
    return (true, cut buf)

def writeBytep (bytes : Bytes) : Bytes :=
  let len := bytes.length % 2 ^ 32
  writeInt32 len ++ bytes.take len

/-- The stream constructor of `YCPByteblock`; the length passes through an `int`. -/
def readByteblock : ByteReader τ Bytes := do
  let len ← readInt32
  if len < 2 ^ 31 then takeN .endOfStream len else throw .allocation

/-- `YCPIntegerRep::toStream`. -/
def writeInteger (v : Int64) : Bytes := 8 :: leBytes 8 v.toUInt64.toNat

/-- The stream constructor of `YCPInteger`: `c` bytes, counted by a signed `char`, go to the top of
the value. -/
def readInteger : ByteReader τ Int64 := do
  let c ← next .endOfStream
  if c = 0 ∨ 128 ≤ c then
    return 0
  else if 8 < c then
    throw .undefinedShift
  else
    let bytes ← takeN .endOfStream c.toNat
    return Int64.ofNat (leNat bytes * 256 ^ (8 - c.toNat))

lemma reads_writeBool (b : Bool) (t : τ) : Reads readBool t (writeBool b) b t := by
  intro rest
  cases b <;> rfl

lemma reads_writeInt32 {n : Nat} (h : n < 2 ^ 32) (t : τ) : Reads readInt32 t (writeInt32 n) n t := by
  refine (reads_takeN ReadFault.endOfStream (by simp [writeInt32]) t).bind_nil ?_
  have hn : leNat (leBytes 4 n) = n := by
    rw [leNat_leBytes]
    exact Nat.mod_eq_of_lt h
  simp only [writeInt32, List.head?_cons, if_true, List.drop_one, List.tail_cons, hn]
  exact Reads.pure n t

lemma length_writeInt32 (n : Nat) : (writeInt32 n).length = 5 := by simp [writeInt32]

lemma writeString_eq {s : Text} (h : s.length < 2 ^ 32) :
    writeString s = writeInt32 s.length ++ s := by
  rw [writeString, Nat.mod_eq_of_lt h, List.take_length]

lemma reads_writeString {s : Text} (h : s.length + 1 < 2 ^ 32) (t : τ) :
    Reads readString t (writeString s) (!s.isEmpty, cut s) t := by
  rw [writeString_eq (by omega)]
  refine (reads_writeInt32 (by omega) t).bind ?_
  cases s with
  | nil => exact Reads.pure (false, []) t
  | cons c s =>
    have h0 : (c :: s).length ≠ 0 := by simp
    rw [if_neg h0, if_neg (by omega)]
    exact (reads_takeN ReadFault.endOfStream rfl t).bind_nil (Reads.pure (true, cut (c :: s)) t)

lemma faults_writeString {s : Text} (h : s.length + 1 = 2 ^ 32) (t : τ) :
    Faults readString t (writeString s) := by
  rw [writeString_eq (by omega)]
  refine (reads_writeInt32 (by omega) t).bind_faults ?_
  rw [if_neg (by omega), if_pos h]
  exact Reads.throw_faults _ _ _

lemma writeBytep_eq {b : Bytes} (h : b.length < 2 ^ 32) :
    writeBytep b = writeInt32 b.length ++ b := by
  rw [writeBytep, Nat.mod_eq_of_lt h, List.take_length]

lemma reads_writeBytep {b : Bytes} (h : b.length < 2 ^ 31) (t : τ) :
    Reads readByteblock t (writeBytep b) b t := by
  rw [writeBytep_eq (by omega)]
  refine (reads_writeInt32 (by omega) t).bind ?_
  rw [if_pos h]
  exact reads_takeN ReadFault.endOfStream rfl t

lemma faults_writeBytep {b : Bytes} (h : 2 ^ 31 ≤ b.length) (h' : b.length < 2 ^ 32) (t : τ) :
    Faults readByteblock t (writeBytep b) := by
  rw [writeBytep_eq h']
  refine (reads_writeInt32 h' t).bind_faults ?_
  rw [if_neg (by omega)]
  exact Reads.throw_faults _ _ _

lemma reads_writeInteger (v : Int64) (t : τ) : Reads readInteger t (writeInteger v) v t := by
  rw [show writeInteger v = [8] ++ leBytes 8 v.toUInt64.toNat from rfl]
  refine Reads.bind (reads_next ReadFault.endOfStream 8 t) ?_
  rw [if_neg (by decide), if_neg (by decide)]
  refine (reads_takeN ReadFault.endOfStream (by rw [length_leBytes]; rfl) t).bind_nil ?_
  have hv : Int64.ofNat (leNat (leBytes 8 v.toUInt64.toNat) * 256 ^ (8 - (8 : UInt8).toNat)) = v := by
    have hlt := v.toUInt64.toNat_lt
    have hbits : Int64.ofNat v.toUInt64.toNat = v := Int64.ofNat_bitVecToNat v.toBitVec
    rw [leNat_leBytes, Nat.mod_eq_of_lt (by omega)]
    simpa using hbits
  rw [hv]
  exact Reads.pure v t

/-! ### Values -/

/-- `YCPListRep::toStream`: the unsigned index does not reach a size of 2^32 or more. -/
def writeList (length : Nat) (elements : Option Bytes) : Option Bytes :=
  if length < 2 ^ 32 then elements.map fun w => writeInt32 length ++ w else none

section Write

variable (isprint : UInt8 → Bool) (writeCode : CodePtr → Option Bytes)
  (writeEntry : EntryRef → Option Bytes)

mutual

/-- `Bytecode::writeValue`. -/
def writeValue : YCPValue → Option Bytes
  | .null => none
  | .void => some [0]
  | .boolean v => some (1 :: writeBool v)
  | .integer v => some (2 :: writeInteger v)
  | .string v => some (4 :: writeString v)
  | .byteblock bytes => some (5 :: writeBytep bytes)
  | .path p => some (6 :: writeString (pathToText isprint p))
  | .symbol v => some (7 :: writeString v)
  | .list l => (writeList l.length (writeElements l)).map fun w => 8 :: w
  | .term name l =>
    (writeList l.length (writeElements l)).map fun w => 9 :: (writeString name ++ w)
  | .map m => (writeEntries m).map fun w => 10 :: (writeInt32 m.length ++ w)
  | .code c => (writeCode c).map fun w => 11 :: w
  | .ret => some [12]
  | .brk => some [13]
  | .entry e => (writeEntry e).map fun w => 14 :: w
  | .error => some [15]
  | .reference _ => some [16]

def writeElements : List YCPValue → Option Bytes
  | [] => some []
  | v :: l => (writeValue v).bind fun w => (writeElements l).map fun w' => w ++ w'

def writeEntries : List (YCPValue × YCPValue) → Option Bytes
  | [] => some []
  | (k, v) :: m => (writeValue k).bind fun w => (writeValue v).bind fun w' =>
      (writeEntries m).map fun w'' => w ++ (w' ++ w'')

end

@[simp] lemma writeElements_nil : writeElements isprint writeCode writeEntry [] = some [] := rfl

lemma writeElements_cons (v : YCPValue) (l : List YCPValue) :
    writeElements isprint writeCode writeEntry (v :: l) =
      (writeValue isprint writeCode writeEntry v).bind fun w =>
        (writeElements isprint writeCode writeEntry l).map fun w' => w ++ w' := rfl

@[simp] lemma writeEntries_nil : writeEntries isprint writeCode writeEntry [] = some [] := rfl

lemma writeEntries_cons (e : YCPValue × YCPValue) (m : List (YCPValue × YCPValue)) :
    writeEntries isprint writeCode writeEntry (e :: m) =
      (writeValue isprint writeCode writeEntry e.1).bind fun w =>
        (writeValue isprint writeCode writeEntry e.2).bind fun w' =>
          (writeEntries isprint writeCode writeEntry m).map fun w'' => w ++ (w' ++ w'') := rfl

lemma writeValue_list (l : List YCPValue) :
    writeValue isprint writeCode writeEntry (.list l) =
      (writeList l.length (writeElements isprint writeCode writeEntry l)).map fun w => 8 :: w := rfl

lemma writeValue_term (name : Text) (l : List YCPValue) :
    writeValue isprint writeCode writeEntry (.term name l) =
      (writeList l.length (writeElements isprint writeCode writeEntry l)).map fun w =>
        9 :: (writeString name ++ w) := rfl

lemma writeValue_map (m : List (YCPValue × YCPValue)) :
    writeValue isprint writeCode writeEntry (.map m) =
      (writeEntries isprint writeCode writeEntry m).map fun w => 10 :: (writeInt32 m.length ++ w) :=
  rfl

end Write

section Read

variable (readCode : ByteReader τ CodePtr)

/-- The stream constructor of `YCPList`. -/
def readList (readValue : ByteReader τ YCPValue) : ByteReader τ (List YCPValue) := do
  let len ← readInt32
  if len < 2 ^ 31 then
    countedLoop (fun index l => do
      let value ← readValue
      return YCPValue.listSet l index value) 0 len []
  else
    throw .allocation

/-- One entry of the stream constructor of `YCPMap`. -/
def readMapEntry (readValue : ByteReader τ YCPValue) (m : List (YCPValue × YCPValue)) :
    ByteReader τ (List (YCPValue × YCPValue)) := do
  let key ← readValue
  let value ← readValue
  match YCPValue.mapAdd m key value with
  | some m' => return m'
  | none => throw .nullHandle

/-- The name that a term read from the stream has until its own has been read. -/
def noNameSoFar : Text := "no-name-so-far".toUTF8.toList

/-- The stream constructor of `YCPTerm`. -/
def readTerm (readValue : ByteReader τ YCPValue) : ByteReader τ YCPValue := do
  let (ok, name) ← readString
  if ok then
    let args ← readList readValue
    return .term name args
  else
    return .term noNameSoFar []

/-- `Bytecode::readValue`, `readValue` being the one for the values inside. -/
def readValueStep (readValue : ByteReader τ YCPValue) : ByteReader τ YCPValue := do
  let vt ← next .endOfStream
  match vt.toNat with
  | 0 => return .void
  | 1 => return .boolean (← readBool)
  | 2 => return .integer (← readInteger)
  | 4 => return .string (← readString).2
  | 5 => return .byteblock (← readByteblock)
  | 6 =>
    match parsePath (← readString).2 with
    | some p => return .path p
    | none => throw .overread
  | 7 => return .symbol (← readString).2
  | 8 => return .list (← readList readValue)
  | 9 => readTerm readValue
  | 10 => do
    let len ← readInt32
    return .map (← countedLoop (fun _ m => readMapEntry readValue m) 0 len [])
  | 11 => return .code (← readCode)
  | _ => return .null

def readValueFuel : Nat → ByteReader τ YCPValue
  | 0 => throw .outOfFuel
  | fuel + 1 => readValueStep readCode (readValueFuel fuel)

/-- `Bytecode::readValue`. Every value inside takes a byte, so the fuel is enough. -/
def readValue : ByteReader τ YCPValue := fun s => readValueFuel readCode (s.1.length + 1) s

end Read

end Bytecode

end YastCore
