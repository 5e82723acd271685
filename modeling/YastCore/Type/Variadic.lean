import YastCore.Lib.Along
import YastCore.Type.Match

/-!
# Parameter lists

A tuple of argument types is matched with a tuple of parameter types, whose last one may be the wildcard
`...`. `TupleType::match`, `TupleType::canCast` and `FunctionType::match` each have their own loop.
-/

namespace YastCore.YType

open Along

/-! ### Casts -/

/-- A match that is not negative. -/
def nonneg (m : Option Int) : Option Bool := m.map fun m => decide (0 ≤ m)

mutual

/-- `Type::canCast` and its overrides. A tuple takes the type it is cast to for the only element of a
tuple: the loop reads `(const TupleType)to`, which constructs a tuple from a type. -/
def canCast (t toType : YType) : Option Bool :=
  match t with
  | base kind q => if (base kind q).isAny then some true else nonneg (matchType (base kind q) toType)
  | flexT q => nonneg (matchType (flexT q) toType)
  | nFlexT n q => nonneg (matchType (nFlexT n q) toType)
  | variableT type q => nonneg (matchType (variableT type q) toType)
  | listT type _ =>
    match toType with
    | listT type' _ => canCast type type'
    | _ => some false
  | mapT keytype valuetype _ =>
    match toType with
    | mapT keytype' valuetype' _ => do
      if ← canCast keytype keytype' then canCast valuetype valuetype' else some false
    | _ => some false
  | blockT type _ =>
    match toType with
    | blockT type' _ => canCast type type'
    | _ => some false
  | tupleT types _ =>
    match toType with
    | tupleT _ _ => do
      let tt := [toType]
      let last ← tt[tt.length - 1]?
      canCastTypes tt last.isWildcard types 0
    | _ => some false
  | functionT _ _ _ => some false

def canCastTypes (tt : List YType) (wildcard : Bool) : List YType → Nat → Option Bool
  | [], _ => some true
  | t :: types, index =>
    if tt.length < index && wildcard then some true
    else do
      let e ← tt[index]?
      if ← canCast t e then canCastTypes tt wildcard types (index + 1) else some false

end

/-! ### What the loops are for -/

def matchesType (t expected : YType) : Option Bool := nonneg (matchType t expected)

/-- The last parameter is the wildcard. -/
def variadic (parameters : List YType) : Bool := parameters.getLast?.any isWildcard

/-- As many arguments as parameters and each one fits; with a wildcard, at least as many as there are
parameters before it, and those fit. -/
def Admits (fit : YType → YType → Option Bool) (arguments parameters : List YType) : Prop :=
  if variadic parameters then
    Fills fit (arguments.take parameters.dropLast.length) parameters.dropLast
  else Fills fit arguments parameters

/-- Nothing is read that is not there, what is accepted is admitted, and what is admitted by a wildcard is
accepted unless the `others` parts of the types do not match. -/
def Conforms (fit : YType → YType → Option Bool) (arguments parameters : List YType) (others : Prop)
    (result : Option Bool) : Prop :=
  ∃ b, result = some b ∧ (b = true → Admits fit arguments parameters) ∧
    (variadic parameters = true → others → Admits fit arguments parameters → b = true)

/-- The qualifiers forbid the match. -/
def refuses (q expected : Qualifiers) : Bool := expected.reference && !expected.const && q.const

/-! ### The loops -/

lemma basematch_tuple (types etypes : List YType) (q q' : Qualifiers) :
    basematch (tupleT types q) (tupleT etypes q') = if refuses q q' then -1 else 0 := by
  obtain ⟨c, r⟩ := q
  obtain ⟨c', r'⟩ := q'
  cases c <;> cases c' <;> cases r' <;> rfl

lemma basematch_function (r er : YType) (types etypes : List YType) (q q' : Qualifiers) :
    basematch (functionT r types q) (functionT er etypes q') = if refuses q q' then -1 else 0 := by
  obtain ⟨c, _⟩ := q
  obtain ⟨c', r'⟩ := q'
  cases c <;> cases c' <;> cases r' <;> rfl

lemma matchesType_constructed {t expected : YType} {parts : Option Bool} {refused : Bool}
    (hmatch : matchType t expected = constructedMatch t expected parts)
    (hbase : basematch t expected = if refused then -1 else 0) :
    matchesType t expected = if refused then some false else parts := by
  rw [matchesType, hmatch, constructedMatch, hbase]
  cases refused with
  | true => rfl
  | false =>
    cases parts with
    | none => rfl
    | some b => cases b <;> rfl

lemma constructedMatch_error (t : YType) (q : Qualifiers) (parts : Option Bool) :
    constructedMatch t (base .errorT q) parts = some (-1) := by
  have hbase : basematch t (base .errorT q) = -1 := by
    unfold basematch
    rw [if_pos (by simp [isError, isKind])]
  rw [constructedMatch, hbase]
  rfl

/-- No type matches the error type. -/
lemma matchesType_error (t : YType) (q : Qualifiers) : matchesType t (base .errorT q) = some false := by
  rw [matchesType, matchType.eq_def]
  cases t with
  | base k q' =>
    have hbase : basematch (base k q') (base .errorT q) = -1 := by
      unfold basematch
      rw [if_pos (by simp [isError, isKind])]
    have hplain : plainMatch k q' (base .errorT q) = -1 := by
      rw [plainMatch.eq_def, hbase]
      rfl
    dsimp only
    rw [hplain]
    rfl
  | flexT q' => rfl
  | nFlexT n q' => rfl
  | variableT t q' => dsimp only; rw [constructedMatch_error]; rfl
  | listT t q' => dsimp only; rw [constructedMatch_error]; rfl
  | mapT k v q' => dsimp only; rw [constructedMatch_error]; rfl
  | blockT t q' => dsimp only; rw [constructedMatch_error]; rfl
  | tupleT types q' => dsimp only; rw [constructedMatch_error]; rfl
  | functionT r arguments q' => dsimp only; rw [constructedMatch_error]; rfl

lemma matchTypes_cons (expected : Nat → Option YType) (esize : Nat) (wildcard : Bool) (t : YType)
    (types : List YType) (index : Nat) (h : index ≤ esize) :
    matchTypes expected esize wildcard (t :: types) index =
      (expected index).bind fun e => (matchesType t e).bind fun b =>
        if b then matchTypes expected esize wildcard types (index + 1) else some false := by
  have hindex : decide (esize < index) = false := decide_eq_false (by omega)
  rw [matchTypes, hindex, Bool.false_and, if_neg Bool.false_ne_true, Option.bind_eq_bind]
  congr 1
  funext e
  rw [matchesType]
  cases matchType t e with
  | none => rfl
  | some m =>
    rw [nonneg, Option.map_some, Option.bind_eq_bind, Option.bind_some, Option.bind_some]
    by_cases hm : 0 ≤ m
    · rw [if_neg (by omega), if_pos (decide_eq_true hm)]
    · rw [if_pos (by omega), if_neg (by simpa using hm)]

/-- The loop over a tuple compares side by side, and reads past the end of the shorter tuple. -/
lemma matchTypes_tuple (wildcard : Bool) (types before after : List YType) :
    matchTypes (fun i => (before ++ after)[i]?) (before ++ after).length wildcard types before.length =
      (along matchesType types after).bind fun b =>
        if b then if types.length ≤ after.length then some true else none else some false := by
  induction types generalizing before after with
  | nil => simp [matchTypes]
  | cons t types ih =>
    rw [matchTypes_cons _ _ _ _ _ _ (by simp)]
    cases after with
    | nil => simp
    | cons e after =>
      have hstep := ih (before ++ [e]) after
      have hlength : (before ++ [e]).length = before.length + 1 := List.length_append
      rw [List.append_assoc, List.singleton_append, hlength] at hstep
      have hget : (before ++ e :: after)[before.length]? = some e := by simp
      rw [hget, Option.bind_some, hstep, along_cons]
      cases matchesType t e with
      | none => rfl
      | some b => cases b <;> simp

/-- The loop over the arguments of a function meets an error type past the last parameter. -/
lemma matchTypes_function (wildcard : Bool) (types before after : List YType) :
    matchTypes (fun i => some (parameterType (before ++ after) i)) (before ++ after).length wildcard types
        before.length =
      (along matchesType types after).map fun b => b && decide (types.length ≤ after.length) := by
  induction types generalizing before after with
  | nil => simp [matchTypes]
  | cons t types ih =>
    rw [matchTypes_cons _ _ _ _ _ _ (by simp), Option.bind_some]
    cases after with
    | nil =>
      have herror : parameterType (before ++ []) before.length = base .errorT unqualified := by
        simp [parameterType]
      rw [herror, matchesType_error]
      simp
    | cons e after =>
      have hstep := ih (before ++ [e]) after
      have hlength : (before ++ [e]).length = before.length + 1 := List.length_append
      rw [List.append_assoc, List.singleton_append, hlength] at hstep
      have hget : parameterType (before ++ e :: after) before.length = e := by simp [parameterType]
      rw [hget, hstep, along_cons]
      cases matchesType t e with
      | none => rfl
      | some b => cases b <;> simp

lemma canCastTypes_eq (toType : YType) (types : List YType) :
    canCastTypes [toType] false types 0 =
      match types with
      | [] => some true
      | [t] => canCast t toType
      | t :: _ => (canCast t toType).bind fun b => if b then none else some false := by
  cases types with
  | nil => rfl
  | cons t types =>
    cases types with
    | nil =>
      rw [canCastTypes]
      simp only [Bool.and_false, Bool.false_eq_true, if_false]
      have hzero : [toType][0]? = some toType := rfl
      rw [hzero, Option.bind_eq_bind, Option.bind_some, Option.bind_eq_bind]
      cases canCast t toType with
      | none => rfl
      | some b => cases b <;> rfl
    | cons t' types =>
      rw [canCastTypes]
      simp only [Bool.and_false, Bool.false_eq_true, if_false]
      have hzero : [toType][0]? = some toType := rfl
      rw [hzero, Option.bind_eq_bind, Option.bind_some, Option.bind_eq_bind]
      cases canCast t toType with
      | none => rfl
      | some b => cases b <;> rfl

/-- Two tuples: the result is undefined for more arguments than parameters. -/
lemma matchesType_tuple (arguments parameters : List YType) (q q' : Qualifiers) :
    matchesType (tupleT arguments q) (tupleT parameters q') =
      if refuses q q' then some false
      else if parameters = [] then none
      else (along matchesType arguments parameters).bind fun b =>
        if b then if arguments.length ≤ parameters.length then some true else none else some false := by
  rw [matchesType_constructed (matchType.eq_def _ _) (basematch_tuple _ _ q q')]
  congr 1
  dsimp only
  cases hlast : parameters[parameters.length - 1]? with
  | none =>
    have hnil : parameters = [] := by
      have hle := List.getElem?_eq_none_iff.mp hlast
      exact List.length_eq_zero_iff.mp (by omega)
    rw [if_pos hnil]
    rfl
  | some last =>
    have hcons : parameters ≠ [] := by
      rintro rfl
      cases hlast
    rw [if_neg hcons, Option.bind_eq_bind, Option.bind_some]
    exact matchTypes_tuple last.isWildcard arguments [] parameters

lemma variadic_eq (parameters : List YType) :
    (!parameters.isEmpty && (parameterType parameters (parameters.length - 1)).isWildcard) =
      variadic parameters := by
  cases parameters with
  | nil => rfl
  | cons p parameters =>
    have hlast : (p :: parameters)[parameters.length]? = (p :: parameters).getLast? := by
      rw [List.getLast?_eq_getElem?, List.length_cons, Nat.add_sub_cancel]
    rw [List.isEmpty_cons, Bool.not_false, Bool.true_and, parameterType, List.length_cons,
      Nat.add_sub_cancel, List.getD_eq_getElem?_getD, hlast, variadic, List.getLast?_cons]
    rfl

/-- The part of `FunctionType::match` that compares the parameters. -/
lemma functionParts_eq (arguments parameters : List YType) :
    (if parameters.isEmpty && arguments.isEmpty then some true
      else if !variadic parameters && parameters.length != arguments.length then some false
      else if arguments.isEmpty then none
      else matchTypes (fun i => some (parameterType parameters i)) parameters.length (variadic parameters)
        arguments 0) =
      if variadic parameters then
        if arguments = [] then none
        else (along matchesType arguments parameters).map fun b =>
          b && decide (arguments.length ≤ parameters.length)
      else if arguments.length ≠ parameters.length then some false
      else along matchesType arguments parameters := by
  have hloop := matchTypes_function (variadic parameters) arguments [] parameters
  cases parameters with
  | nil => cases arguments <;> rfl
  | cons p parameters =>
    rw [List.isEmpty_cons, Bool.false_and, if_neg Bool.false_ne_true]
    cases hv : variadic (p :: parameters) with
    | true =>
      rw [hv] at hloop
      simp only [Bool.not_true, Bool.false_and, Bool.false_eq_true, if_false, if_true, List.isEmpty_iff]
      split
      · rfl
      · exact hloop
    | false =>
      rw [hv] at hloop
      by_cases hn : arguments.length = (p :: parameters).length
      · have hcons : arguments ≠ [] := by
          rintro rfl
          cases hn
        rw [hn, bne_self_eq_false, Bool.and_false, if_neg Bool.false_ne_true,
          if_neg (by simpa using hcons), if_neg Bool.false_ne_true, if_neg (fun h => h rfl)]
        refine hloop.trans ?_
        rw [hn]
        simp
      · have hne : (p :: parameters).length ≠ arguments.length := fun h => hn h.symm
        rw [Bool.not_false, Bool.true_and, if_pos (by simpa using hne), if_neg Bool.false_ne_true,
          if_pos hn]

/-- Two functions: more arguments than parameters never match, and no arguments against a wildcard are a
null pointer. -/
lemma matchesType_function (r r' : YType) (arguments parameters : List YType) (q q' : Qualifiers) :
    matchesType (functionT r arguments q) (functionT r' parameters q') =
      if refuses q q' then some false
      else (matchesType r r').bind fun returns =>
        if !returns then some false
        else if variadic parameters then
          if arguments = [] then none
          else (along matchesType arguments parameters).map fun b =>
            b && decide (arguments.length ≤ parameters.length)
        else if arguments.length ≠ parameters.length then some false
        else along matchesType arguments parameters := by
  rw [matchesType_constructed (matchType.eq_def _ _) (basematch_function r r' _ _ q q')]
  congr 1
  dsimp only
  rw [matchesType]
  cases matchType r r' with
  | none => rfl
  | some m =>
    rw [nonneg, Option.map_some, Option.bind_eq_bind, Option.bind_some, Option.bind_some]
    by_cases hm : 0 ≤ m
    · rw [if_neg (by omega : ¬ m < 0), decide_eq_true hm, variadic_eq, functionParts_eq, Bool.not_true,
        if_neg Bool.false_ne_true]
    · rw [if_pos (by omega : m < 0), decide_eq_false hm]
      rfl

/-- The cast of a tuple reads the whole target for each element but the first, past its end. -/
lemma canCast_tuple (arguments parameters : List YType) (q q' : Qualifiers) :
    canCast (tupleT arguments q) (tupleT parameters q') =
      match arguments with
      | [] => some true
      | [t] => canCast t (tupleT parameters q')
      | t :: _ => (canCast t (tupleT parameters q')).bind fun b => if b then none else some false := by
  rw [canCast]
  exact canCastTypes_eq (tupleT parameters q') arguments

/-! ### When the loops do what they are for -/

section Conforms

variable {fit : YType → YType → Option Bool} {arguments parameters : List YType} {others : Prop}

lemma conforms_true_iff :
    Conforms fit arguments parameters others (some true) ↔ Admits fit arguments parameters := by
  constructor
  · rintro ⟨b, hb, hsound, -⟩
    exact hsound (Option.some.inj hb).symm
  · intro h
    exact ⟨true, rfl, fun _ => h, fun _ _ _ => rfl⟩

lemma conforms_false_iff :
    Conforms fit arguments parameters others (some false) ↔
      (variadic parameters = true → others → ¬ Admits fit arguments parameters) := by
  constructor
  · rintro ⟨b, hb, -, hcomplete⟩ hv ho h
    rw [← Option.some.inj hb] at hcomplete
    cases hcomplete hv ho h
  · intro h
    exact ⟨false, rfl, fun hb => (Bool.false_ne_true hb).elim, fun hv ho h' => absurd h' (h hv ho)⟩

lemma not_conforms_none : ¬ Conforms fit arguments parameters others none := by
  rintro ⟨b, hb, -⟩
  cases hb

lemma admits_variadic (hv : variadic parameters = true) :
    Admits fit arguments parameters ↔
      parameters.dropLast.length ≤ arguments.length ∧ along fit arguments parameters.dropLast = some true := by
  rw [Admits, if_pos hv, fills_take_iff]

lemma admits_fixed (hv : variadic parameters = false) :
    Admits fit arguments parameters ↔
      arguments.length = parameters.length ∧ along fit arguments parameters = some true := by
  rw [Admits, hv, if_neg Bool.false_ne_true, fills_iff]

/-- The comparison fails before the wildcard, or it does not fail and stops at the wildcard or right before
it. -/
def EndsAtWildcard (arguments parameters : List YType) : Prop :=
  along matchesType arguments parameters.dropLast = some false ∨
    (along matchesType arguments parameters = some true ∧
      (arguments.length = parameters.length ∨ arguments.length + 1 = parameters.length))

/-- `past` is what the loop makes of an argument past the last parameter. -/
lemma conforms_variadic {past : Option Bool} (hv : variadic parameters = true) (ho : others)
    (hpast : past ≠ some true) :
    Conforms matchesType arguments parameters others
        ((along matchesType arguments parameters).bind fun b =>
          if b then if arguments.length ≤ parameters.length then some true else past else some false) ↔
      EndsAtWildcard arguments parameters := by
  have hne : parameters ≠ [] := by
    rintro rfl
    cases hv
  have hlength : parameters.dropLast.length + 1 = parameters.length := by
    rw [List.length_dropLast]
    have := List.length_pos_iff.mpr hne
    omega
  have halong := @along_append_right _ _ matchesType arguments parameters.dropLast
    [parameters.getLast hne]
  rw [List.dropLast_append_getLast hne] at halong
  rw [EndsAtWildcard]
  cases hinit : along matchesType arguments parameters.dropLast with
  | none =>
    rw [hinit, Option.bind_none] at halong
    rw [halong]
    simp [not_conforms_none]
  | some b =>
    rw [hinit, Option.bind_some] at halong
    cases b with
    | false =>
      rw [if_neg Bool.false_ne_true] at halong
      rw [halong, Option.bind_some, if_neg Bool.false_ne_true, conforms_false_iff, admits_variadic hv, hinit]
      simp
    | true =>
      cases hall : along matchesType arguments parameters with
      | none => simp [not_conforms_none]
      | some b =>
        cases b with
        | false =>
          -- some argument stands at the wildcard, so there are enough
          have henough : parameters.dropLast.length ≤ arguments.length := by
            by_contra hlt
            rw [hall, if_pos rfl, List.drop_eq_nil_of_le (by omega), along_nil_left] at halong
            cases halong
          have hnot : ¬ Conforms matchesType arguments parameters others (some false) := by
            rw [conforms_false_iff]
            intro h
            exact h hv ho ((admits_variadic hv).mpr ⟨henough, hinit⟩)
          simp [hnot]
        | true =>
          rw [Option.bind_some, if_pos rfl]
          split
          · rw [conforms_true_iff, admits_variadic hv, hinit]
            simp only [and_true, true_and, Option.some.injEq, Bool.true_eq_false, false_or]
            omega
          · have hnot : ¬ (arguments.length = parameters.length ∨ arguments.length + 1 = parameters.length) := by
              omega
            have hlater : ¬ Conforms matchesType arguments parameters others past := by
              cases past with
              | none => exact not_conforms_none
              | some b =>
                cases b with
                | false =>
                  rw [conforms_false_iff]
                  intro h
                  exact h hv ho ((admits_variadic hv).mpr ⟨by omega, hinit⟩)
                | true => exact absurd rfl hpast
            simp [hlater, hnot]

end Conforms

/-- The tuples `TupleType::match` is right about. -/
def TupleAgrees (arguments parameters : List YType) : Prop :=
  if variadic parameters then EndsAtWildcard arguments parameters
  else parameters ≠ [] ∧
    (along matchesType arguments parameters = some false ∨
      (along matchesType arguments parameters = some true ∧ arguments.length = parameters.length))

/-- The parameters `FunctionType::match` is right about. -/
def FunctionAgrees (arguments parameters : List YType) : Prop :=
  if variadic parameters then arguments ≠ [] ∧ EndsAtWildcard arguments parameters
  else arguments.length ≠ parameters.length ∨ (along matchesType arguments parameters).isSome = true

/-- The tuples `TupleType::canCast` is right about: the target stands for its own only element. -/
def CastAgrees (arguments parameters : List YType) (target : YType) : Prop :=
  match arguments with
  | [] => Admits canCast [] parameters
  | t :: rest =>
    (canCast t target = some false ∧ (variadic parameters = true → ¬ Admits canCast (t :: rest) parameters)) ∨
      (rest = [] ∧ canCast t target = some true ∧ Admits canCast [t] parameters)

lemma conforms_tuple_iff (arguments parameters : List YType) (q q' : Qualifiers) :
    Conforms matchesType arguments parameters (refuses q q' = false)
        (matchesType (tupleT arguments q) (tupleT parameters q')) ↔
      refuses q q' = true ∨ TupleAgrees arguments parameters := by
  rw [matchesType_tuple, TupleAgrees]
  cases hr : refuses q q' with
  | true => simp [conforms_false_iff]
  | false =>
    rw [if_neg Bool.false_ne_true]
    simp only [Bool.false_eq_true, false_or]
    cases hv : variadic parameters with
    | true =>
      have hne : parameters ≠ [] := by
        rintro rfl
        cases hv
      rw [if_neg hne, if_pos rfl]
      exact conforms_variadic hv trivial (by simp)
    | false =>
      rw [if_neg Bool.false_ne_true]
      by_cases hnil : parameters = []
      · simp [hnil, not_conforms_none]
      · rw [if_neg hnil]
        cases hall : along matchesType arguments parameters with
        | none => simp [not_conforms_none]
        | some b =>
          cases b with
          | false => simp [conforms_false_iff, hv, hnil]
          | true =>
            rw [Option.bind_some, if_pos rfl]
            split
            · rw [conforms_true_iff, admits_fixed hv, hall]
              simp [hnil]
            · have hlt : arguments.length ≠ parameters.length := by omega
              simp [not_conforms_none, hlt]

lemma conforms_function_iff (r r' : YType) (arguments parameters : List YType) (q q' : Qualifiers) :
    Conforms matchesType arguments parameters (refuses q q' = false ∧ matchesType r r' = some true)
        (matchesType (functionT r arguments q) (functionT r' parameters q')) ↔
      refuses q q' = true ∨ matchesType r r' = some false ∨
        (matchesType r r' = some true ∧ FunctionAgrees arguments parameters) := by
  rw [matchesType_function, FunctionAgrees]
  cases hr : refuses q q' with
  | true => simp [conforms_false_iff]
  | false =>
    rw [if_neg Bool.false_ne_true]
    cases hreturn : matchesType r r' with
    | none => simp [not_conforms_none]
    | some returns =>
      cases returns with
      | false => simp [conforms_false_iff]
      | true =>
        rw [Option.bind_some, Bool.not_true, if_neg Bool.false_ne_true]
        simp only [Bool.false_eq_true, Option.some.injEq, Bool.true_eq_false, false_or, true_and, and_self]
        cases hv : variadic parameters with
        | true =>
          rw [if_pos rfl, if_pos rfl]
          by_cases hnil : arguments = []
          · simp [hnil, not_conforms_none]
          · have hmap : ((along matchesType arguments parameters).map fun b =>
                b && decide (arguments.length ≤ parameters.length)) =
                (along matchesType arguments parameters).bind fun b =>
                  if b then if arguments.length ≤ parameters.length then some true else some false
                  else some false := by
              cases along matchesType arguments parameters with
              | none => rfl
              | some b =>
                cases b with
                | false => rfl
                | true => by_cases hle : arguments.length ≤ parameters.length <;> simp [hle]
            rw [if_neg hnil, hmap, conforms_variadic hv trivial (by simp)]
            simp [hnil]
        | false =>
          rw [if_neg Bool.false_ne_true, if_neg Bool.false_ne_true]
          by_cases hlength : arguments.length = parameters.length
          · rw [if_neg (fun h => h hlength)]
            cases hall : along matchesType arguments parameters with
            | none => simp [not_conforms_none, hlength]
            | some b =>
              cases b with
              | false => simp [conforms_false_iff, hv]
              | true => simp [conforms_true_iff, admits_fixed hv, hall, hlength]
          · rw [if_pos hlength]
            simp [conforms_false_iff, hv, hlength]

lemma conforms_cast_iff (arguments parameters : List YType) (q q' : Qualifiers) :
    Conforms canCast arguments parameters True (canCast (tupleT arguments q) (tupleT parameters q')) ↔
      CastAgrees arguments parameters (tupleT parameters q') := by
  rw [canCast_tuple, CastAgrees.eq_def]
  cases arguments with
  | nil => exact conforms_true_iff
  | cons t rest =>
    cases rest with
    | nil =>
      dsimp only
      cases canCast t (tupleT parameters q') with
      | none => simp [not_conforms_none]
      | some b => cases b <;> simp [conforms_true_iff, conforms_false_iff]
    | cons t' rest =>
      dsimp only
      cases canCast t (tupleT parameters q') with
      | none => simp [not_conforms_none]
      | some b => cases b <;> simp [not_conforms_none, conforms_false_iff]

/-- The three loops do what parameter lists are for exactly on the lists they are right about. -/
theorem variadic_conforms_iff (arguments parameters : List YType) (q q' : Qualifiers) :
    (Conforms matchesType arguments parameters (refuses q q' = false)
        (matchesType (tupleT arguments q) (tupleT parameters q')) ↔
      refuses q q' = true ∨ TupleAgrees arguments parameters) ∧
    (Conforms canCast arguments parameters True (canCast (tupleT arguments q) (tupleT parameters q')) ↔
      CastAgrees arguments parameters (tupleT parameters q')) ∧
    (∀ r r', Conforms matchesType arguments parameters (refuses q q' = false ∧ matchesType r r' = some true)
        (matchesType (functionT r arguments q) (functionT r' parameters q')) ↔
      refuses q q' = true ∨ matchesType r r' = some false ∨
        (matchesType r r' = some true ∧ FunctionAgrees arguments parameters)) := by
  refine ⟨conforms_tuple_iff arguments parameters q q', conforms_cast_iff arguments parameters q q', ?_⟩
  intro r r'
  exact conforms_function_iff r r' arguments parameters q q'

/-- `(integer, integer)` against `(integer)` reads past the end; it is not cast to `(...)`, and a function
of it does not match a function of `(...)`. -/
theorem variadic_not_conforms :
    (¬ ∀ arguments parameters, Conforms matchesType arguments parameters True
      (matchesType (tupleT arguments unqualified) (tupleT parameters unqualified))) ∧
    (¬ ∀ arguments parameters, Conforms canCast arguments parameters True
      (canCast (tupleT arguments unqualified) (tupleT parameters unqualified))) ∧
    ¬ ∀ arguments parameters, Conforms matchesType arguments parameters True
      (matchesType (functionT (base .voidT unqualified) arguments unqualified)
        (functionT (base .voidT unqualified) parameters unqualified)) := by
  refine ⟨?_, ?_, ?_⟩
  · intro h
    exact not_conforms_none
      (h [base .integerT unqualified, base .integerT unqualified] [base .integerT unqualified])
  · intro h
    have hcast := conforms_false_iff.mp
      (h [base .integerT unqualified, base .integerT unqualified] [base .wildcardT unqualified])
    exact hcast rfl trivial ((admits_variadic rfl).mpr ⟨by decide, rfl⟩)
  · intro h
    have hmatch := conforms_false_iff.mp
      (h [base .integerT unqualified, base .integerT unqualified] [base .wildcardT unqualified])
    exact hmatch rfl trivial ((admits_variadic rfl).mpr ⟨by decide, rfl⟩)

end YastCore.YType
