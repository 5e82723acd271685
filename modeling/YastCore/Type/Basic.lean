import YastCore.Value.Basic

/-!
# Types

The class `Type` and the classes of constructed types. `Bytecode::readType` makes a plain `Type` of a
`flex`, so `FlexT` is also a kind of plain types.
-/

namespace YastCore

/-- The kinds of an object of class `Type` itself. -/
inductive BaseKind where
  | unspecT
  | errorT
  | anyT
  | booleanT
  | byteblockT
  | floatT
  | integerT
  | localeT
  | pathT
  | stringT
  | symbolT
  | termT
  | voidT
  | wildcardT
  | flexT
  | nilT
deriving DecidableEq, Repr

/-- `m_const` and `m_reference`. -/
structure Qualifiers where
  const : Bool
  reference : Bool
deriving DecidableEq, Repr

/-- The `m_arguments` of a function type without parameters is the null pointer, here `[]`. -/
inductive YType where
  | base (kind : BaseKind) (q : Qualifiers)
  | flexT (q : Qualifiers)
  | nFlexT (number : Nat) (q : Qualifiers)
  | variableT (type : YType) (q : Qualifiers)
  | listT (type : YType) (q : Qualifiers)
  | mapT (keytype valuetype : YType) (q : Qualifiers)
  | blockT (type : YType) (q : Qualifiers)
  | tupleT (types : List YType) (q : Qualifiers)
  | functionT (returntype : YType) (arguments : List YType) (q : Qualifiers)
deriving Repr

/-- No qualifier. -/
def unqualified : Qualifiers := ⟨false, false⟩

namespace YType

/-- Induction over the types inside a type. -/
@[elab_as_elim]
theorem induct {motive : YType → Prop} (base : ∀ k q, motive (base k q))
    (flexT : ∀ q, motive (flexT q)) (nFlexT : ∀ n q, motive (nFlexT n q))
    (variableT : ∀ t q, motive t → motive (variableT t q))
    (listT : ∀ t q, motive t → motive (listT t q))
    (mapT : ∀ k v q, motive k → motive v → motive (mapT k v q))
    (blockT : ∀ t q, motive t → motive (blockT t q))
    (tupleT : ∀ types q, (∀ t ∈ types, motive t) → motive (tupleT types q))
    (functionT : ∀ r arguments q, motive r → (∀ t ∈ arguments, motive t) →
      motive (functionT r arguments q)) (t : YType) : motive t := by
  refine @YType.rec motive (fun types => ∀ t ∈ types, motive t) base flexT nFlexT variableT listT mapT
    blockT tupleT functionT ?_ ?_ t
  · intro t ht
    simp at ht
  · intro t types ht htypes t' ht'
    rcases List.mem_cons.mp ht' with rfl | ht'
    · exact ht
    · exact htypes t' ht'

/-- `m_kind == kind`, for the kinds that only a plain type has. -/
def isKind (kind : BaseKind) : YType → Bool
  | base k _ => k == kind
  | _ => false

def isUnspec : YType → Bool := isKind .unspecT

def isError : YType → Bool := isKind .errorT

def isAny : YType → Bool := isKind .anyT

def isBoolean : YType → Bool := isKind .booleanT

def isByteblock : YType → Bool := isKind .byteblockT

def isFloat : YType → Bool := isKind .floatT

def isInteger : YType → Bool := isKind .integerT

def isLocale : YType → Bool := isKind .localeT

def isPath : YType → Bool := isKind .pathT

def isString : YType → Bool := isKind .stringT

def isSymbol : YType → Bool := isKind .symbolT

def isTerm : YType → Bool := isKind .termT

def isVoid : YType → Bool := isKind .voidT

def isWildcard : YType → Bool := isKind .wildcardT

def isFlex : YType → Bool
  | base k _ => k == .flexT
  | flexT _ => true
  | nFlexT _ _ => true
  | _ => false

def isBasetype : YType → Bool
  | base _ _ => true
  | _ => false

def qualifiers : YType → Qualifiers
  | base _ q => q
  | flexT q => q
  | nFlexT _ q => q
  | variableT _ q => q
  | listT _ q => q
  | mapT _ _ q => q
  | blockT _ q => q
  | tupleT _ q => q
  | functionT _ _ q => q

def isConst (t : YType) : Bool := t.qualifiers.const

def isReference (t : YType) : Bool := t.qualifiers.reference

/-- The `YCPValueType` of a kind of plain types. -/
def baseValueType : BaseKind → Nat
  | .voidT => 0
  | .anyT => 0
  | .nilT => 0
  | .booleanT => 1
  | .integerT => 2
  | .floatT => 3
  | .stringT => 4
  | .localeT => 4
  | .byteblockT => 5
  | .pathT => 6
  | .symbolT => 7
  | .termT => 9
  | .unspecT => 15
  | .errorT => 15
  | .wildcardT => 15
  | .flexT => 15

/-- The values of a type as a `YCPValueType`, numbered as in `YCPValue.valuetype`. -/
def valueType : YType → Nat
  | base k _ => baseValueType k
  | variableT _ _ => 14
  | blockT _ _ => 11
  | listT _ _ => 8
  | mapT _ _ _ => 10
  | _ => 15

end YType

end YastCore
