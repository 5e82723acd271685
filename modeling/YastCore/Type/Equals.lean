import YastCore.Type.Match

/-!
# Equality of types

`Type::equals` and its overrides compare two types "without any assumptions like any == unspec". What they
see of a difference depends on the side they are called from: the parameters of the other function are
read along those of the function itself, and the cast in `TupleType::equals` puts the other tuple into a
new one.
-/

namespace YastCore.YType

mutual

/-- `equals`; `none` where the null pointer for no parameters is followed. -/
def equals (t expected : YType) : Option Bool :=
  match t with
  | base kind _ =>
    match expected with
    | base kind' _ => some (kind == kind')
    | _ => some false
  | flexT _ =>
    match expected with
    | flexT _ => some true
    | _ => some false
  | nFlexT _ _ =>
    match expected with
    | nFlexT _ _ => some true
    | _ => some false
  | variableT type _ =>
    match expected with
    | variableT type' _ => equals type type'
    | _ => some false
  | listT type _ =>
    match expected with
    | listT type' _ => equals type type'
    | _ => some false
  | mapT keytype valuetype _ =>
    match expected with
    | mapT keytype' valuetype' _ => do
      if ← equals valuetype valuetype' then equals keytype keytype' else some false
    | _ => some false
  | blockT type _ =>
    match expected with
    | blockT type' _ => equals type type'
    | _ => some false
  | tupleT types _ =>
    match expected with
    | tupleT _ _ =>
      -- `(const TupleType)expected` is a tuple whose only element is `expected`
      let tt := [expected]
      if tt.length ≠ types.length then some false else tupleEquals tt types 0
    | _ => some false
  | functionT returntype arguments _ =>
    match expected with
    | functionT returntype' parameters _ => do
      if !(← equals returntype returntype') then some false
      else if parameters.isEmpty && arguments.isEmpty then some true
      else if arguments.isEmpty then none
      else functionEquals parameters arguments 0
    | _ => some false

/-- The loop of `TupleType::equals`, which gives up at the first pair that is equal. -/
def tupleEquals (tt : List YType) : List YType → Nat → Option Bool
  | [], _ => some true
  | t :: types, index => do
    let e ← tt[index]?
    if ← equals t e then some false else tupleEquals tt types (index + 1)

/-- The loop of `FunctionType::equals`. -/
def functionEquals (parameters : List YType) : List YType → Nat → Option Bool
  | [], _ => some true
  | t :: types, index => do
    if ← equals t (parameterType parameters index) then functionEquals parameters types (index + 1)
    else some false

end

/-! ### Structure -/

mutual

/-- Constructors, base kinds and parameter lists, without the qualifiers. Of the number of a flex, what
`number` makes of it counts: the number itself, or nothing. -/
def outline (number : Nat → Nat) : YType → YType
  | base k _ => base k unqualified
  | flexT _ => flexT unqualified
  | nFlexT n _ => nFlexT (number n) unqualified
  | variableT t _ => variableT (outline number t) unqualified
  | listT t _ => listT (outline number t) unqualified
  | mapT keytype valuetype _ => mapT (outline number keytype) (outline number valuetype) unqualified
  | blockT t _ => blockT (outline number t) unqualified
  | tupleT types _ => tupleT (outlineList number types) unqualified
  | functionT r arguments _ => functionT (outline number r) (outlineList number arguments) unqualified

def outlineList (number : Nat → Nat) : List YType → List YType
  | [] => []
  | t :: types => outline number t :: outlineList number types

end

def Same (number : Nat → Nat) (a b : YType) : Prop := a.outline number = b.outline number

/-- On these types `equals` is structural equality. -/
structure Structural (number : Nat → Nat) (P : YType → Prop) : Prop where
  exact : ∀ a b, P a → P b → ∃ r, equals a b = some r ∧ (r = true ↔ Same number a b)
  refl : ∀ a, P a → equals a a = some true
  symm : ∀ a b, P a → P b → equals a b = some true → equals b a = some true
  trans : ∀ a b c, P a → P b → P c → equals a b = some true → equals b c = some true →
    equals a c = some true

/-! ### What is seen of a difference -/

/-- An odd number of tuples of one element around something else. -/
def oddlyNested : YType → Bool
  | tupleT [t] _ => !oddlyNested t
  | _ => false

mutual

/-- No difference is seen: of two tuples nothing but how the first is nested, and of two functions the
parameters that the first has. -/
def hides : YType → YType → Bool
  | base kind _, base kind' _ => kind == kind'
  | flexT _, flexT _ => true
  | nFlexT _ _, nFlexT _ _ => true
  | variableT t _, variableT t' _ => hides t t'
  | listT t _, listT t' _ => hides t t'
  | mapT keytype valuetype _, mapT keytype' valuetype' _ =>
    hides valuetype valuetype' && hides keytype keytype'
  | blockT t _, blockT t' _ => hides t t'
  | tupleT types q, tupleT _ _ => oddlyNested (tupleT types q)
  | functionT r arguments _, functionT r' parameters _ => hides r r' && hidesFrom parameters arguments 0
  | _, _ => false

def hidesFrom (parameters : List YType) : List YType → Nat → Bool
  | [], _ => true
  | t :: types, index => hides t (parameterType parameters index) && hidesFrom parameters types (index + 1)

end

mutual

/-- Before a difference is seen, a function without parameters is met on the left of one with parameters. -/
def nullParameters : YType → YType → Bool
  | variableT t _, variableT t' _ => nullParameters t t'
  | listT t _, listT t' _ => nullParameters t t'
  | mapT keytype valuetype _, mapT keytype' valuetype' _ =>
    nullParameters valuetype valuetype' || (hides valuetype valuetype' && nullParameters keytype keytype')
  | blockT t _, blockT t' _ => nullParameters t t'
  | functionT r arguments _, functionT r' parameters _ =>
    nullParameters r r' || (hides r r' &&
      ((arguments.isEmpty && !parameters.isEmpty) || nullParametersFrom parameters arguments 0))
  | _, _ => false

def nullParametersFrom (parameters : List YType) : List YType → Nat → Bool
  | [], _ => false
  | t :: types, index =>
    nullParameters t (parameterType parameters index) ||
      (hides t (parameterType parameters index) && nullParametersFrom parameters types (index + 1))

end

mutual

/-- Every tuple that is not inside another is oddly nested. -/
def tuplesOdd : YType → Bool
  | variableT t _ => tuplesOdd t
  | listT t _ => tuplesOdd t
  | mapT keytype valuetype _ => tuplesOdd valuetype && tuplesOdd keytype
  | blockT t _ => tuplesOdd t
  | tupleT types q => oddlyNested (tupleT types q)
  | functionT r arguments _ => tuplesOdd r && tuplesOddList arguments
  | _ => true

def tuplesOddList : List YType → Bool
  | [] => true
  | t :: types => tuplesOdd t && tuplesOddList types

end

/-- Nothing but a tuple equals a tuple, and what a tuple equals depends on how it is nested. -/
lemma equals_tuple (t : YType) (types : List YType) (q : Qualifiers) :
    equals t (tupleT types q) = some (oddlyNested t) := by
  induction t using YType.induct with
  | tupleT ts q' ih =>
    cases ts with
    | nil => rfl
    | cons t ts =>
      cases ts with
      | nil =>
        have hget : [tupleT types q][0]? = some (tupleT types q) := rfl
        rw [equals, if_neg (by simp), tupleEquals, hget, Option.bind_eq_bind, Option.bind_some,
          ih t (List.mem_singleton_self t), oddlyNested]
        cases oddlyNested t <;> rfl
      | cons t' ts =>
        rw [equals, if_pos (by simp), oddlyNested]
        intro t'' q'' h
        cases h
  | base k q' => rfl
  | flexT q' => rfl
  | nFlexT n q' => rfl
  | variableT t q' ih => rfl
  | listT t q' ih => rfl
  | mapT k v q' ihk ihv => rfl
  | blockT t q' ih => rfl
  | functionT r arguments q' ihr iharguments => rfl

lemma functionEquals_eq {types : List YType} (parameters : List YType) (index : Nat)
    (ih : ∀ t ∈ types, ∀ b, equals t b = if nullParameters t b then none else some (hides t b)) :
    functionEquals parameters types index =
      if nullParametersFrom parameters types index then none else some (hidesFrom parameters types index) := by
  induction types generalizing index with
  | nil => rfl
  | cons t types ihtypes =>
    have hrest := ihtypes (index + 1) fun t' ht' => ih t' (List.mem_cons_of_mem t ht')
    rw [functionEquals, nullParametersFrom, hidesFrom, ih t List.mem_cons_self, hrest]
    cases nullParameters t (parameterType parameters index) with
    | true => rfl
    | false => cases hides t (parameterType parameters index) <;> simp

/-- What `equals` returns: that no difference is seen, if no null pointer comes first. -/
lemma equals_eq (a b : YType) :
    equals a b = if nullParameters a b then none else some (hides a b) := by
  induction a using YType.induct generalizing b with
  | base k q => cases b <;> rfl
  | flexT q => cases b <;> rfl
  | nFlexT n q => cases b <;> rfl
  | variableT t q ih => cases b <;> first | exact ih _ | rfl
  | listT t q ih => cases b <;> first | exact ih _ | rfl
  | mapT k v q ihk ihv =>
    cases b with
    | mapT k' v' q' =>
      rw [equals, nullParameters, hides, ihv v', ihk k']
      cases nullParameters v v' with
      | true => rfl
      | false => cases hides v v' <;> simp
    | _ => rfl
  | blockT t q ih => cases b <;> first | exact ih _ | rfl
  | tupleT types q ih =>
    cases b with
    | tupleT types' q' => exact equals_tuple (tupleT types q) types' q'
    | _ => rfl
  | functionT r arguments q ihr iharguments =>
    cases b with
    | functionT r' parameters q' =>
      have hloop := functionEquals_eq parameters 0 iharguments
      rw [equals, nullParameters, hides, ihr r', hloop]
      cases nullParameters r r' with
      | true => rfl
      | false =>
        cases hides r r' with
        | false => rfl
        | true => cases arguments <;> cases parameters <;> simp [nullParametersFrom, hidesFrom]
    | _ => rfl

/-! ### Equal structures -/

lemma hidesFrom_of_same {number : Nat → Nat} {types : List YType} (before after : List YType)
    (ih : ∀ t ∈ types, ∀ b, Same number t b → nullParameters t b = false ∧ hides t b = tuplesOdd t)
    (h : outlineList number types = outlineList number after) :
    nullParametersFrom (before ++ after) types before.length = false ∧
      hidesFrom (before ++ after) types before.length = tuplesOddList types := by
  induction types generalizing before after with
  | nil => exact ⟨rfl, rfl⟩
  | cons t types ihtypes =>
    cases after with
    | nil => cases h
    | cons e after =>
      rw [outlineList, outlineList, List.cons.injEq] at h
      have hget : parameterType (before ++ e :: after) before.length = e := by simp [parameterType]
      have hlength : (before ++ [e]).length = before.length + 1 := List.length_append
      obtain ⟨hnull, hhides⟩ := ih t List.mem_cons_self e h.1
      have hrest := ihtypes (before ++ [e]) after (fun t' ht' => ih t' (List.mem_cons_of_mem t ht')) h.2
      rw [List.append_assoc, List.singleton_append, hlength] at hrest
      rw [nullParametersFrom, hidesFrom, tuplesOddList, hget, hnull, hhides, hrest.1, hrest.2]
      simp

/-- Between types of one structure no null pointer is met, and only tuples show a difference. -/
lemma hides_of_same {number : Nat → Nat} {a b : YType} (h : Same number a b) :
    nullParameters a b = false ∧ hides a b = tuplesOdd a := by
  unfold Same at h
  induction a using YType.induct generalizing b with
  | base k q =>
    cases b with
    | base k' q' =>
      rw [outline, outline, base.injEq] at h
      rw [hides, h.1]
      exact ⟨rfl, beq_self_eq_true k'⟩
    | _ => cases h
  | flexT q => cases b <;> first | exact ⟨rfl, rfl⟩ | cases h
  | nFlexT n q => cases b <;> first | exact ⟨rfl, rfl⟩ | cases h
  | variableT t q ih =>
    cases b with
    | variableT t' q' => exact ih (variableT.inj h).1
    | _ => cases h
  | listT t q ih =>
    cases b with
    | listT t' q' => exact ih (listT.inj h).1
    | _ => cases h
  | mapT k v q ihk ihv =>
    cases b with
    | mapT k' v' q' =>
      obtain ⟨hk, hv, -⟩ := mapT.inj h
      obtain ⟨hknull, hkhides⟩ := ihk hk
      obtain ⟨hvnull, hvhides⟩ := ihv hv
      rw [nullParameters, hides, tuplesOdd, hknull, hvnull, hkhides, hvhides]
      simp
    | _ => cases h
  | blockT t q ih =>
    cases b with
    | blockT t' q' => exact ih (blockT.inj h).1
    | _ => cases h
  | tupleT types q ih =>
    cases b with
    | tupleT types' q' => exact ⟨rfl, rfl⟩
    | _ => cases h
  | functionT r arguments q ihr iharguments =>
    cases b with
    | functionT r' parameters q' =>
      obtain ⟨hr, harguments, -⟩ := functionT.inj h
      obtain ⟨hrnull, hrhides⟩ := ihr hr
      obtain ⟨hnull, hhides⟩ := hidesFrom_of_same [] parameters
        (fun t ht b hb => iharguments t ht hb) harguments
      have hempty : (arguments.isEmpty && !parameters.isEmpty) = false := by
        cases arguments with
        | nil =>
          cases parameters with
          | nil => rfl
          | cons p parameters => cases harguments
        | cons a arguments => rfl
      rw [List.nil_append, List.length_nil] at hnull hhides
      rw [nullParameters, hides, tuplesOdd, hrnull, hrhides, hempty, hnull, hhides]
      simp
    | _ => cases h

/-! ### When equality is structural -/

/-- Two types that `equals` tells apart, or does not, as their structures are: the same structure with no
tuple in it but oddly nested ones, or structures with a difference that is seen. -/
def ToldApart (number : Nat → Nat) (a b : YType) : Prop :=
  (Same number a b ∧ tuplesOdd a = true) ∨
    (¬ Same number a b ∧ nullParameters a b = false ∧ hides a b = false)

lemma exact_iff (number : Nat → Nat) (a b : YType) :
    (∃ r, equals a b = some r ∧ (r = true ↔ Same number a b)) ↔ ToldApart number a b := by
  rw [equals_eq, ToldApart]
  by_cases hsame : Same number a b
  · obtain ⟨hnull, hhides⟩ := hides_of_same hsame
    rw [hnull, hhides]
    simp [hsame]
  · cases nullParameters a b <;> cases hides a b <;> simp [hsame]

end YastCore.YType
