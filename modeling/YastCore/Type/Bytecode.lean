import YastCore.Type.Basic
import YastCore.Value.Bytecode

/-!
# Types in bytecode

`Type::toStream` and `Bytecode::readType`. What is read back is the type that was written, except that
a `flex` comes back as a plain type of that kind.
-/

namespace YastCore

open Codec Bytecode

namespace BaseKind

def all : List BaseKind :=
  [unspecT, errorT, anyT, booleanT, byteblockT, floatT, integerT, localeT, pathT, stringT, symbolT,
    termT, voidT, wildcardT, flexT]

/-- The number of a kind in `Type::tkind`. -/
def code (k : BaseKind) : Nat := if k = nilT then 21 else all.idxOf k

/-- The kind with a number, of those that `readType` makes a plain type of. -/
def ofCode (n : Nat) : Option BaseKind := if n = 21 then some nilT else all[n]?

lemma ofCode_code (k : BaseKind) : ofCode k.code = some k := by
  cases k <;> rfl

lemma code_lt (k : BaseKind) : k.code < 2 ^ 32 := by
  cases k <;> decide

end BaseKind

namespace YType

/-- `Type::toStream`: the kind and the qualifiers. -/
def writeKind (kind : Nat) (q : Qualifiers) : Bytes :=
  writeInt32 kind ++ (writeBool q.const ++ writeBool q.reference)

mutual

def toStream : YType → Bytes
  | base k q => writeKind k.code q
  | flexT q => writeKind 14 q
  | nFlexT n q => writeKind 22 q ++ writeInt32 n
  | variableT t q => writeKind 15 q ++ toStream t
  | listT t q => writeKind 16 q ++ toStream t
  | mapT k v q => writeKind 17 q ++ (toStream k ++ toStream v)
  | blockT t q => writeKind 18 q ++ toStream t
  | tupleT types q => writeKind 19 q ++ (writeInt32 types.length ++ toStreamList types)
  | functionT r arguments q =>
    writeKind 20 q ++ (toStream r ++
      if arguments.isEmpty then writeBool false
      else writeBool true ++
        (writeKind 19 unqualified ++ (writeInt32 arguments.length ++ toStreamList arguments)))

def toStreamList : List YType → Bytes
  | [] => []
  | t :: types => toStream t ++ toStreamList types

end

section Read

variable {τ : Type}

/-- The stream constructor of `Type`. -/
def readQualifiers : ByteReader τ Qualifiers := do
  let const ← readBool
  let reference ← readBool
  return ⟨const, reference⟩

def readTypesStep (readType : ByteReader τ YType) (types : List YType) : ByteReader τ (List YType) := do
  return types ++ [← readType]

def readTypeStep (readType : ByteReader τ YType) : ByteReader τ YType := do
  let kind ← readInt32
  match BaseKind.ofCode kind with
  | some k => return base k (← readQualifiers)
  | none =>
    match kind with
    | 22 => do
      let q ← readQualifiers
      return nFlexT (← readInt32) q
    | 15 => do
      let q ← readQualifiers
      return variableT (← readType) q
    | 16 => do
      let q ← readQualifiers
      return listT (← readType) q
    | 17 => do
      let q ← readQualifiers
      let k ← readType
      return mapT k (← readType) q
    | 18 => do
      let q ← readQualifiers
      return blockT (← readType) q
    | 19 => do
      let q ← readQualifiers
      let count ← readInt32
      return tupleT (← countedLoop (fun _ => readTypesStep readType) 0 count []) q
    | 20 => do
      let q ← readQualifiers
      let r ← readType
      if ← readBool then
        match ← readType with
        | tupleT types _ => return functionT r types q
        | _ => return functionT r [] q
      else return functionT r [] q
    | _ => return base .errorT unqualified

def readTypeFuel : Nat → ByteReader τ YType
  | 0 => throw .endOfStream
  | fuel + 1 => readTypeStep (readTypeFuel fuel)

/-- `Bytecode::readType`. A type takes at least one byte for each of its levels. -/
def readType : ByteReader τ YType := fun s => readTypeFuel (s.1.length + 1) s

end Read

/-! ### Round trip -/

mutual

/-- What is read back. -/
def streamed : YType → YType
  | base k q => base k q
  | flexT q => base .flexT q
  | nFlexT n q => nFlexT n q
  | variableT t q => variableT (streamed t) q
  | listT t q => listT (streamed t) q
  | mapT k v q => mapT (streamed k) (streamed v) q
  | blockT t q => blockT (streamed t) q
  | tupleT types q => tupleT (streamedList types) q
  | functionT r arguments q => functionT (streamed r) (streamedList arguments) q

def streamedList : List YType → List YType
  | [] => []
  | t :: types => streamed t :: streamedList types

end

mutual

/-- Counts and flex numbers that fit their field. -/
def fits : YType → Bool
  | nFlexT n _ => decide (n < 2 ^ 32)
  | variableT t _ => fits t
  | listT t _ => fits t
  | mapT k v _ => fits k && fits v
  | blockT t _ => fits t
  | tupleT types _ => decide (types.length < 2 ^ 32) && fitsList types
  | functionT r arguments _ => fits r && decide (arguments.length < 2 ^ 32) && fitsList arguments
  | _ => true

def fitsList : List YType → Bool
  | [] => true
  | t :: types => fits t && fitsList types

end

lemma streamedList_eq_map (types : List YType) : streamedList types = types.map streamed := by
  induction types with
  | nil => rfl
  | cons t types ih => rw [streamedList, ih, List.map_cons]

lemma fitsList_iff {types : List YType} : fitsList types = true ↔ ∀ t ∈ types, fits t = true := by
  induction types with
  | nil => simp [fitsList]
  | cons t types ih => simp [fitsList, ih]

lemma toStreamList_eq_flatMap (types : List YType) : toStreamList types = types.flatMap toStream := by
  induction types with
  | nil => rfl
  | cons t types ih => rw [toStreamList, ih, List.flatMap_cons]

variable {τ : Type}

lemma reads_readQualifiers (q : Qualifiers) (s : τ) :
    Reads readQualifiers s (writeBool q.const ++ writeBool q.reference) q s := by
  refine (reads_writeBool q.const s).bind ?_
  exact (reads_writeBool q.reference s).bind_nil (Reads.pure q s)

lemma reads_writeKind {kind : Nat} (h : kind < 2 ^ 32) {r : Nat → ByteReader τ YType} {q : Qualifiers}
    {w : Bytes} {t : YType} {s : τ}
    (hr : Reads (r kind) s ((writeBool q.const ++ writeBool q.reference) ++ w) t s) :
    Reads (readInt32 >>= r) s (writeKind kind q ++ w) t s := by
  rw [writeKind, List.append_assoc]
  exact (reads_writeInt32 h s).bind hr

lemma length_writeKind (kind : Nat) (q : Qualifiers) : (writeKind kind q).length = 7 := by
  simp [writeKind, length_writeInt32, writeBool]

lemma foldIdx_append_singleton (f : YType → YType) (types : List YType) (i : Nat) (a : List YType) :
    foldIdx (fun _ a t => a ++ [f t]) i types a = a ++ types.map f := by
  induction types generalizing i a with
  | nil => simp [foldIdx]
  | cons t types ih => simp [foldIdx, ih]

lemma reads_readTypesStep {read : ByteReader τ YType} {t : YType} {s : τ}
    (h : Reads read s (toStream t) (streamed t) s) (types : List YType) :
    Reads (readTypesStep read types) s (toStream t) (types ++ [streamed t]) s := by
  unfold readTypesStep
  exact h.bind_nil (f := fun t' => pure (types ++ [t'])) (Reads.pure _ s)

lemma reads_types {read : ByteReader τ YType} {types : List YType} {s : τ}
    (h : ∀ t ∈ types, Reads read s (toStream t) (streamed t) s) :
    Reads (countedLoop (fun _ => readTypesStep read) 0 types.length []) s (toStreamList types)
      (streamedList types) s := by
  have hloop := decides_countedLoop (fun t ht (_ : Nat) a => (reads_readTypesStep (h t ht) a).decides) 0 []
  have hreads := hloop.reads (fun _ _ => trivial)
  rw [foldIdx_append_singleton, List.nil_append, ← streamedList_eq_map,
    ← toStreamList_eq_flatMap] at hreads
  exact hreads

/-- The tuple of the argument types. -/
lemma reads_tuple {read : ByteReader τ YType} {types : List YType} {q : Qualifiers} {s : τ}
    (hlength : types.length < 2 ^ 32) (h : ∀ t ∈ types, Reads read s (toStream t) (streamed t) s) :
    Reads (readTypeStep read) s (toStream (tupleT types q)) (streamed (tupleT types q)) s := by
  rw [toStream, streamed]
  refine reads_writeKind (by decide) ((reads_readQualifiers q s).bind ?_)
  exact (reads_writeInt32 hlength s).bind ((reads_types h).bind_nil (Reads.pure _ s))

lemma length_toStream_le_toStreamList {t : YType} {types : List YType} (h : t ∈ types) :
    (toStream t).length ≤ (toStreamList types).length := by
  rw [toStreamList_eq_flatMap]
  exact length_le_flatMap h

lemma reads_base {read : ByteReader τ YType} (k : BaseKind) (q : Qualifiers) (s : τ) :
    Reads (readTypeStep read) s (writeKind k.code q) (base k q) s := by
  rw [← List.append_nil (writeKind k.code q)]
  refine reads_writeKind k.code_lt ?_
  simp only [BaseKind.ofCode_code, List.append_nil]
  exact (reads_readQualifiers q s).bind_nil (Reads.pure _ s)

/-- One level of a type, with the levels below given. -/
lemma reads_readTypeStep {read : ByteReader τ YType} {s : τ} {t : YType} (ht : t.fits = true)
    (hread : ∀ t', fits t' = true → (toStream t').length < (toStream t).length →
      Reads read s (toStream t') (streamed t') s) :
    Reads (readTypeStep read) s (toStream t) (streamed t) s := by
  cases t with
  | base k q =>
    rw [toStream, streamed]
    exact reads_base k q s
  | flexT q =>
    rw [toStream, streamed]
    exact reads_base .flexT q s
  | nFlexT n q =>
    rw [fits, decide_eq_true_iff] at ht
    rw [toStream, streamed]
    refine reads_writeKind (by decide) ((reads_readQualifiers q s).bind ?_)
    exact (reads_writeInt32 ht s).bind_nil (Reads.pure _ s)
  | variableT t q =>
    rw [fits] at ht
    rw [toStream, List.length_append, length_writeKind] at hread
    rw [toStream, streamed]
    refine reads_writeKind (by decide) ((reads_readQualifiers q s).bind ?_)
    exact (hread t ht (by omega)).bind_nil (Reads.pure _ s)
  | listT t q =>
    rw [fits] at ht
    rw [toStream, List.length_append, length_writeKind] at hread
    rw [toStream, streamed]
    refine reads_writeKind (by decide) ((reads_readQualifiers q s).bind ?_)
    exact (hread t ht (by omega)).bind_nil (Reads.pure _ s)
  | mapT k v q =>
    rw [fits, Bool.and_eq_true] at ht
    rw [toStream, List.length_append, length_writeKind, List.length_append] at hread
    rw [toStream, streamed]
    refine reads_writeKind (by decide) ((reads_readQualifiers q s).bind ?_)
    exact (hread k ht.1 (by omega)).bind ((hread v ht.2 (by omega)).bind_nil (Reads.pure _ s))
  | blockT t q =>
    rw [fits] at ht
    rw [toStream, List.length_append, length_writeKind] at hread
    rw [toStream, streamed]
    refine reads_writeKind (by decide) ((reads_readQualifiers q s).bind ?_)
    exact (hread t ht (by omega)).bind_nil (Reads.pure _ s)
  | tupleT types q =>
    rw [fits, Bool.and_eq_true, decide_eq_true_iff, fitsList_iff] at ht
    rw [toStream, List.length_append, length_writeKind, List.length_append] at hread
    refine reads_tuple ht.1 fun t hmem => hread t (ht.2 t hmem) ?_
    have hle := length_toStream_le_toStreamList hmem
    omega
  | functionT r arguments q =>
    rw [fits, Bool.and_eq_true, Bool.and_eq_true, decide_eq_true_iff] at ht
    rw [toStream, List.length_append, length_writeKind, List.length_append] at hread
    rw [toStream, streamed]
    refine reads_writeKind (by decide) ((reads_readQualifiers q s).bind ?_)
    refine (hread r ht.1.1 (by omega)).bind ?_
    cases arguments with
    | nil => exact (reads_writeBool false s).bind_nil (Reads.pure _ s)
    | cons a arguments =>
      have hfits : fits (tupleT (a :: arguments) unqualified) = true := by
        rw [fits, Bool.and_eq_true, decide_eq_true_iff]
        exact ⟨ht.1.2, ht.2⟩
      have htuple := hread (tupleT (a :: arguments) unqualified) hfits (by
        simp only [toStream, List.isEmpty_cons, Bool.false_eq_true, if_false, List.length_append,
          length_writeKind]
        omega)
      rw [toStream, streamed] at htuple
      simp only [List.isEmpty_cons, Bool.false_eq_true, if_false]
      exact (reads_writeBool true s).bind (htuple.bind_nil (Reads.pure _ s))

theorem reads_readTypeFuel (s : τ) {t : YType} (ht : t.fits = true) {fuel : Nat}
    (hfuel : (toStream t).length < fuel) : Reads (readTypeFuel fuel) s (toStream t) (streamed t) s := by
  induction fuel generalizing t with
  | zero => exact absurd hfuel (Nat.not_lt_zero _)
  | succ fuel ih => exact reads_readTypeStep ht fun t' ht' hlt => ih ht' (by omega)

/-- What `readType` makes of a written type. -/
theorem reads_readType (s : τ) {t : YType} (ht : t.fits = true) :
    Reads readType s (toStream t) (streamed t) s := by
  intro rest
  refine reads_readTypeFuel s ht ?_ rest
  rw [List.length_append]
  omega

end YType

end YastCore
