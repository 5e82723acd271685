import YastCore.Type.Basic

/-!
# Type matching

`Type::match` and its overrides: negative when the type does not match the expected one, zero for a
full match, positive for a match by propagation. The result is `none` where the code reads past the
end of a tuple or through a null pointer.
-/

namespace YastCore.YType

/-- The kinds that every type matches. -/
def isFree (t : YType) : Bool := t.isAny || t.isFlex || t.isWildcard || t.isUnspec

def basematch (t expected : YType) : Int :=
  if t.isError || expected.isError then -1
  else if expected.isReference && !expected.isConst && t.isConst then -1
  else if expected.isFree then 1
  else if t.isVoid then 0
  else if t.isBasetype == expected.isBasetype then 0
  else -1

/-- `Type::match`, for a plain type. -/
def plainMatch (kind : BaseKind) (q : Qualifiers) (expected : YType) : Int :=
  if basematch (base kind q) expected < 0 then -1
  else if expected.isFree then 0
  else if expected.isKind kind then 0
  else
    match kind with
    | .anyT => -1
    | .unspecT => 0
    | .voidT => 0
    | .integerT => if expected.isFloat then 2 else -1
    | .floatT => if expected.isInteger then 1 else -1
    | .localeT => if expected.isString then 0 else -1
    | .stringT => if expected.isLocale then 0 else -1
    | _ => -1

/-- `FunctionType::parameterType`. -/
def parameterType (parameters : List YType) (n : Nat) : YType :=
  parameters.getD n (base .errorT unqualified)

/-- The tail of the matches of constructed types: free expectations match, and the others when the
parts do. -/
def constructedMatch (t expected : YType) (parts : Option Bool) : Option Int :=
  if basematch t expected = 1 then some 0
  else if basematch t expected = 0 then parts.map fun b => if b then 0 else -1
  else some (-1)

mutual

def matchType (t expected : YType) : Option Int :=
  match t with
  | base kind q => some (plainMatch kind q expected)
  | flexT _ => some (if expected.isFlex then 0 else -1)
  | nFlexT _ _ => some (if expected.isFlex then 0 else -1)
  | variableT type q =>
    constructedMatch (variableT type q) expected <|
      match expected with
      | variableT etype _ => (matchType type etype).map fun m => decide (0 ≤ m)
      | _ => some false
  | listT type q =>
    constructedMatch (listT type q) expected <|
      match expected with
      | listT etype _ =>
        if etype.isUnspec || type.isUnspec then some true
        else (matchType type etype).map fun m => decide (0 ≤ m)
      | _ => some false
  | mapT keytype valuetype q =>
    constructedMatch (mapT keytype valuetype q) expected <|
      match expected with
      | mapT ekey evalue _ => do
        let key ← if keytype.isUnspec then some true
          else (matchType keytype ekey).map fun m => decide (0 ≤ m)
        if !key then some false
        else if valuetype.isUnspec then some true
        else (matchType valuetype evalue).map fun m => decide (0 ≤ m)
      | _ => some false
  | blockT type q =>
    constructedMatch (blockT type q) expected <|
      match expected with
      | blockT etype _ => (matchType type etype).map fun m => decide (0 ≤ m)
      | _ => some false
  | tupleT types q =>
    constructedMatch (tupleT types q) expected <|
      match expected with
      | tupleT etypes _ => do
        let last ← etypes[etypes.length - 1]?
        matchTypes (fun i => etypes[i]?) etypes.length last.isWildcard types 0
      | _ => some false
  | functionT returntype arguments q =>
    constructedMatch (functionT returntype arguments q) expected <|
      match expected with
      | functionT ereturn parameters _ => do
        let m ← matchType returntype ereturn
        if m < 0 then some false
        else if parameters.isEmpty && arguments.isEmpty then some true
        else
          let wildcard :=
            !parameters.isEmpty && (parameterType parameters (parameters.length - 1)).isWildcard
          if !wildcard && parameters.length != arguments.length then some false
          else if arguments.isEmpty then none
          else
            matchTypes (fun i => some (parameterType parameters i)) parameters.length wildcard
              arguments 0
      | _ => some false

/-- The loop over the elements of a tuple or the arguments of a function. -/
def matchTypes (expected : Nat → Option YType) (esize : Nat) (wildcard : Bool) :
    List YType → Nat → Option Bool
  | [], _ => some true
  | t :: types, index =>
    if esize < index && wildcard then some true
    else do
      let e ← expected index
      let m ← matchType t e
      if m < 0 then some false else matchTypes expected esize wildcard types (index + 1)

end

/-- `commontype` and its overrides: a type that holds the values of both. -/
def commontype : YType → YType → Option YType
  | listT type q, other =>
    if other.isVoid || other.isUnspec then some (listT type q)
    else
      match other with
      | listT otype _ => (commontype type otype).map fun t => listT t unqualified
      | _ => some (base .anyT unqualified)
  | mapT keytype valuetype q, other =>
    if other.isVoid || other.isUnspec then some (mapT keytype valuetype q)
    else
      match other with
      | mapT okey ovalue _ => do
        let key ← commontype keytype okey
        let value ← commontype valuetype ovalue
        some (mapT key value unqualified)
      | _ => some (base .anyT unqualified)
  | t, other =>
    if t.isVoid then some other
    else do
      let m ← matchType t other
      if 0 ≤ m then some t
      else if t.isAny then some (base .anyT unqualified)
      else
        let m' ← matchType other t
        if 0 ≤ m' then some other else some (base .anyT unqualified)

/-! ### Types of data -/

/-- The types that constants, lists and maps have. -/
def isData : YType → Bool
  | base _ _ => true
  | listT type _ => type.isData
  | mapT keytype valuetype _ => keytype.isData && valuetype.isData
  | _ => false

lemma constructedMatch_isSome (t expected : YType) {parts : Option Bool} (h : parts.isSome = true) :
    (constructedMatch t expected parts).isSome = true := by
  unfold constructedMatch
  split
  · rfl
  split
  · simpa using h
  · rfl

lemma matchType_isSome {t : YType} (h : t.isData = true) (expected : YType) :
    (matchType t expected).isSome = true := by
  induction t using YType.induct generalizing expected with
  | base kind q => rfl
  | listT type q ih =>
    rw [matchType.eq_def]
    dsimp only
    refine constructedMatch_isSome _ _ ?_
    split
    · split
      · rfl
      · simpa using ih h _
    · rfl
  | mapT keytype valuetype q ihkey ihvalue =>
    rw [isData, Bool.and_eq_true] at h
    rw [matchType.eq_def]
    dsimp only
    refine constructedMatch_isSome _ _ ?_
    split
    next ekey evalue eq =>
      obtain ⟨k, hk⟩ := Option.isSome_iff_exists.mp (ihkey h.1 ekey)
      obtain ⟨v, hv⟩ := Option.isSome_iff_exists.mp (ihvalue h.2 evalue)
      rw [hk, hv]
      cases keytype.isUnspec <;> cases valuetype.isUnspec <;> by_cases hle : 0 ≤ k <;> simp [hle]
    · rfl
  | flexT q => cases h
  | nFlexT n q => cases h
  | variableT t q ih => cases h
  | blockT t q ih => cases h
  | tupleT types q ih => cases h
  | functionT r arguments q ih ih' => cases h

lemma commontype_base {kind : BaseKind} {q : Qualifiers} {other : YType} (h : other.isData = true) :
    ∃ r, commontype (base kind q) other = some r ∧ r.isData = true := by
  rw [commontype]
  · obtain ⟨m, hm⟩ := Option.isSome_iff_exists.mp (matchType_isSome (show (base kind q).isData = true from rfl) other)
    obtain ⟨m', hm'⟩ := Option.isSome_iff_exists.mp (matchType_isSome h (base kind q))
    split
    · exact ⟨other, rfl, h⟩
    rw [hm, hm']
    dsimp only [Option.bind_eq_bind, Option.bind_some]
    split
    · exact ⟨_, rfl, rfl⟩
    split
    · exact ⟨_, rfl, rfl⟩
    split
    · exact ⟨_, rfl, h⟩
    · exact ⟨_, rfl, rfl⟩
  · intros
    contradiction
  · intros
    contradiction

/-- Types of data have a common type. -/
lemma commontype_data {t other : YType} (h : t.isData = true) (h' : other.isData = true) :
    ∃ r, commontype t other = some r ∧ r.isData = true := by
  induction t using YType.induct generalizing other with
  | base kind q => exact commontype_base h'
  | listT type q ih =>
    rw [commontype.eq_def]
    dsimp only
    split
    · exact ⟨_, rfl, h⟩
    split
    next otype oq hnot =>
      have hother : otype.isData = true := h'
      obtain ⟨r, hr, hdata⟩ := ih h hother
      exact ⟨listT r unqualified, by rw [hr]; rfl, hdata⟩
    next => exact ⟨_, rfl, rfl⟩
  | mapT keytype valuetype q ihkey ihvalue =>
    rw [isData, Bool.and_eq_true] at h
    rw [commontype.eq_def]
    dsimp only
    split
    · exact ⟨_, rfl, by rw [isData, h.1, h.2]; rfl⟩
    split
    next okey ovalue oq hnot =>
      rw [isData, Bool.and_eq_true] at h'
      obtain ⟨k, hk, hkdata⟩ := ihkey h.1 h'.1
      obtain ⟨v, hv, hvdata⟩ := ihvalue h.2 h'.2
      exact ⟨mapT k v unqualified, by rw [hk, hv]; rfl, by rw [isData, hkdata, hvdata]; rfl⟩
    next => exact ⟨_, rfl, rfl⟩
  | flexT q => cases h
  | nFlexT n q => cases h
  | variableT t q ih => cases h
  | blockT t q ih => cases h
  | tupleT types q ih => cases h
  | functionT r arguments q ih ih' => cases h

end YastCore.YType
