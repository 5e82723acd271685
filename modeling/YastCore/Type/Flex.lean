import YastCore.Type.Basic

/-!
# Flex types

A `flex` and the numbered ones stand for types that the arguments of a builtin determine.
`Type::matchFlex` finds what one of them stands for, `Type::unflex` puts it in. A flex without a number
counts as number 0.
-/

namespace YastCore

def Qualifiers.union (q q' : Qualifiers) : Qualifiers := ⟨q.const || q'.const, q.reference || q'.reference⟩

namespace YType

/-! ### Qualifiers -/

def setQualifiers (q : Qualifiers) : YType → YType
  | base k _ => base k q
  | flexT _ => flexT q
  | nFlexT n _ => nFlexT n q
  | variableT t _ => variableT t q
  | listT t _ => listT t q
  | mapT k v _ => mapT k v q
  | blockT t _ => blockT t q
  | tupleT types _ => tupleT types q
  | functionT r arguments _ => functionT r arguments q

def asConst (t : YType) : YType := t.setQualifiers ⟨true, t.isReference⟩

def asReference (t : YType) : YType := t.setQualifiers ⟨t.isConst, true⟩

/-- `clone` copies everything but the qualifiers. A tuple is built from its first element. -/
def clone : YType → Option YType
  | tupleT types _ => if types.isEmpty then none else some (tupleT types unqualified)
  | t => some (t.setQualifiers unqualified)

/-! ### What a flex stands for -/

/-- What `FlexType::matchFlex` and `NFlexType::matchFlex` return for a matching number. -/
def flexValue (type : YType) : YType := if type.isUnspec then base .anyT unqualified else type

mutual

/-- `matchFlex`; `none` is the null pointer. -/
def matchFlex : YType → YType → Nat → Option YType
  | base _ _, _, _ => none
  | flexT _, type, number => if number ≠ 0 then none else some (flexValue type)
  | nFlexT m _, type, number => if number = 0 ∨ number ≠ m then none else some (flexValue type)
  | variableT t _, type, number =>
    match type with
    | variableT t' _ => matchFlex t t' number
    | _ => none
  | listT t _, type, number =>
    match type with
    | listT t' _ => matchFlex t t' number
    | _ => none
  | mapT keytype valuetype _, type, number =>
    match type with
    | mapT keytype' valuetype' _ =>
      match matchFlex valuetype valuetype' number with
      | some flex => some flex
      | none => matchFlex keytype keytype' number
    | _ => none
  | blockT t _, type, number =>
    match type with
    | blockT t' _ => matchFlex t t' number
    | _ => none
  | tupleT types _, type, number =>
    match type with
    | tupleT types' _ => matchFlexTypes types types' number
    | _ => none
  | functionT _ arguments _, type, number =>
    match type with
    | functionT _ arguments' _ => matchFlexTypes arguments arguments' number
    | _ => none

/-- The loop of `TupleType::matchFlex`. It stops where the other tuple ends or has an error type. -/
def matchFlexTypes : List YType → List YType → Nat → Option YType
  | t :: types, t' :: types', number =>
    if t'.isError then none
    else
      match matchFlex t t' number with
      | some flex => some flex
      | none => matchFlexTypes types types' number
  | _, _, _ => none

end

/-! ### Putting it in -/

/-- The qualifiers that are kept from a flex. -/
def keepQualifiers (q : Qualifiers) (tp : YType) : YType :=
  let tp := if q.const then tp.asConst else tp
  if q.reference then tp.asReference else tp

/-- A copy of the type with the qualifiers of the flex in its place. -/
def inPlaceOf (q : Qualifiers) (type : YType) : Option YType := type.clone.map (keepQualifiers q)

mutual

/-- `unflex`. A map looks no deeper than its key and its value, and at the value only if the key is no
flex. -/
def unflex : YType → YType → Nat → Option YType
  | base k q, _, _ => (base k q).clone
  | flexT q, type, number => if number = 0 then inPlaceOf q type else (flexT q).clone
  | nFlexT m q, type, number => if m = number then inPlaceOf q type else (nFlexT m q).clone
  | variableT t _, type, number => (unflex t type number).map fun t => variableT t unqualified
  | listT t _, type, number => (unflex t type number).map fun t => listT t unqualified
  | mapT keytype valuetype q, type, number =>
    if keytype.isFlex then
      (unflex keytype type number).map fun keytype => mapT keytype valuetype unqualified
    else if valuetype.isFlex then
      (unflex valuetype type number).map fun valuetype => mapT keytype valuetype unqualified
    else (mapT keytype valuetype q).clone
  | blockT t _, type, number => (unflex t type number).map fun t => blockT t unqualified
  | tupleT types _, type, number =>
    if types.isEmpty then none
    else (unflexTypes types type number).map fun types => tupleT types unqualified
  | functionT r arguments _, type, number => do
    let r ← unflex r type number
    let arguments ← unflexTypes arguments type number
    return functionT r arguments unqualified

def unflexTypes : List YType → YType → Nat → Option (List YType)
  | [], _, _ => some []
  | t :: types, type, number => do
    let t ← unflex t type number
    let types ← unflexTypes types type number
    return t :: types

end

/-! ### Substitution -/

mutual

/-- The numbers of the flexes in a type, from left to right. -/
def flexes : YType → List Nat
  | base k _ => if k = .flexT then [0] else []
  | flexT _ => [0]
  | nFlexT n _ => [n]
  | variableT t _ => flexes t
  | listT t _ => flexes t
  | mapT keytype valuetype _ => flexes keytype ++ flexes valuetype
  | blockT t _ => flexes t
  | tupleT types _ => flexesList types
  | functionT r arguments _ => flexes r ++ flexesList arguments

def flexesList : List YType → List Nat
  | [] => []
  | t :: types => flexes t ++ flexesList types

end

/-- What a substitution has for a number, in place of a flex whose qualifiers it adds to its own. -/
def placed (σ : Nat → Option YType) (n : Nat) (flex : YType) : YType :=
  match σ n with
  | none => flex
  | some u => u.setQualifiers (u.qualifiers.union flex.qualifiers)

mutual

def substitute (σ : Nat → Option YType) : YType → YType
  | base k q => if k = .flexT then placed σ 0 (base k q) else base k q
  | flexT q => placed σ 0 (flexT q)
  | nFlexT n q => placed σ n (nFlexT n q)
  | variableT t q => variableT (substitute σ t) q
  | listT t q => listT (substitute σ t) q
  | mapT keytype valuetype q => mapT (substitute σ keytype) (substitute σ valuetype) q
  | blockT t q => blockT (substitute σ t) q
  | tupleT types q => tupleT (substituteList σ types) q
  | functionT r arguments q => functionT (substitute σ r) (substituteList σ arguments) q

def substituteList (σ : Nat → Option YType) : List YType → List YType
  | [] => []
  | t :: types => substitute σ t :: substituteList σ types

end

/-- One flex gives way, the others are left alone. -/
def single (n : Nat) (u : YType) : Nat → Option YType := fun m => if m = n then some u else none

mutual

/-- The structure of a type, without the qualifiers. -/
def bare : YType → YType
  | base k _ => base k unqualified
  | flexT _ => flexT unqualified
  | nFlexT n _ => nFlexT n unqualified
  | variableT t _ => variableT (bare t) unqualified
  | listT t _ => listT (bare t) unqualified
  | mapT keytype valuetype _ => mapT (bare keytype) (bare valuetype) unqualified
  | blockT t _ => blockT (bare t) unqualified
  | tupleT types _ => tupleT (bareList types) unqualified
  | functionT r arguments _ => functionT (bare r) (bareList arguments) unqualified

def bareList : List YType → List YType
  | [] => []
  | t :: types => bare t :: bareList types

end

lemma flexesList_eq_flatMap (types : List YType) : flexesList types = types.flatMap flexes := by
  induction types with
  | nil => rfl
  | cons t types ih => rw [flexesList, ih, List.flatMap_cons]

lemma substituteList_eq_map (σ : Nat → Option YType) (types : List YType) :
    substituteList σ types = types.map (substitute σ) := by
  induction types with
  | nil => rfl
  | cons t types ih => rw [substituteList, ih, List.map_cons]

lemma bareList_eq_map (types : List YType) : bareList types = types.map bare := by
  induction types with
  | nil => rfl
  | cons t types ih => rw [bareList, ih, List.map_cons]

@[simp] lemma qualifiers_setQualifiers (q : Qualifiers) (t : YType) : (t.setQualifiers q).qualifiers = q := by
  cases t <;> rfl

@[simp] lemma flexes_setQualifiers (q : Qualifiers) (t : YType) : (t.setQualifiers q).flexes = t.flexes := by
  cases t <;> simp [setQualifiers, flexes]

@[simp] lemma bare_setQualifiers (q : Qualifiers) (t : YType) : (t.setQualifiers q).bare = t.bare := by
  cases t <;> simp [setQualifiers, bare]

@[simp] lemma qualifiers_bare (t : YType) : t.bare.qualifiers = unqualified := by
  cases t <;> simp [bare, qualifiers]

lemma setQualifiers_qualifiers (t : YType) : t.setQualifiers t.qualifiers = t := by
  cases t <;> rfl

lemma setQualifiers_injective {q q' : Qualifiers} {t : YType} (h : t.setQualifiers q = t.setQualifiers q') :
    q = q' := by
  have hq := congrArg qualifiers h
  rwa [qualifiers_setQualifiers, qualifiers_setQualifiers] at hq

section Substitution

variable {σ : Nat → Option YType}

/-- The flexes that a number leaves behind. -/
def leaves (σ : Nat → Option YType) (n : Nat) : List Nat :=
  match σ n with
  | none => [n]
  | some u => u.flexes

lemma flexes_placed {n : Nat} {flex : YType} (h : flex.flexes = [n]) :
    (placed σ n flex).flexes = leaves σ n := by
  unfold placed leaves
  cases σ n with
  | none => exact h
  | some u => rw [flexes_setQualifiers]

theorem flexes_substitute (σ : Nat → Option YType) (t : YType) :
    (substitute σ t).flexes = t.flexes.flatMap (leaves σ) := by
  induction t using YType.induct with
  | base k q =>
    rw [substitute]
    by_cases hk : k = .flexT
    · have hflex : (base k q).flexes = [0] := by rw [flexes, if_pos hk]
      rw [if_pos hk, flexes_placed hflex, hflex, List.flatMap_singleton]
    · rw [if_neg hk, flexes, if_neg hk, List.flatMap_nil]
  | flexT q => rw [substitute, flexes_placed rfl, flexes, List.flatMap_singleton]
  | nFlexT n q => rw [substitute, flexes_placed rfl, flexes, List.flatMap_singleton]
  | variableT t q ih => rw [substitute, flexes, flexes, ih]
  | listT t q ih => rw [substitute, flexes, flexes, ih]
  | mapT k v q ihk ihv => rw [substitute, flexes, flexes, ihk, ihv, List.flatMap_append]
  | blockT t q ih => rw [substitute, flexes, flexes, ih]
  | tupleT types q ih =>
    rw [substitute, flexes, flexes, substituteList_eq_map, flexesList_eq_flatMap, flexesList_eq_flatMap,
      List.flatMap_map, List.flatMap_assoc]
    exact List.flatMap_congr ih
  | functionT r arguments q ihr ih =>
    rw [substitute, flexes, flexes, substituteList_eq_map, flexesList_eq_flatMap, flexesList_eq_flatMap,
      List.flatMap_map, List.flatMap_append, List.flatMap_assoc, ihr]
    congr 1
    exact List.flatMap_congr ih

lemma substitute_eq_self {t : YType} (h : ∀ n ∈ t.flexes, σ n = none) : substitute σ t = t := by
  have hplaced : ∀ {n : Nat} {flex : YType}, σ n = none → placed σ n flex = flex := by
    intro n flex hn
    rw [placed, hn]
  induction t using YType.induct with
  | base k q =>
    rw [substitute]
    split
    next hk => exact hplaced (h 0 (by simp [flexes, hk]))
    next => rfl
  | flexT q => exact hplaced (h 0 (by simp [flexes]))
  | nFlexT n q => exact hplaced (h n (by simp [flexes]))
  | variableT t q ih => rw [substitute, ih h]
  | listT t q ih => rw [substitute, ih h]
  | mapT k v q ihk ihv =>
    rw [flexes, List.forall_mem_append] at h
    rw [substitute, ihk h.1, ihv h.2]
  | blockT t q ih => rw [substitute, ih h]
  | tupleT types q ih =>
    rw [flexes, flexesList_eq_flatMap, List.forall_mem_flatMap] at h
    rw [substitute, substituteList_eq_map, List.map_congr_left fun t ht => ih t ht (h t ht), List.map_id']
  | functionT r arguments q ihr ih =>
    rw [flexes, flexesList_eq_flatMap, List.forall_mem_append, List.forall_mem_flatMap] at h
    rw [substitute, substituteList_eq_map, ihr h.1, List.map_congr_left fun t ht => ih t ht (h.2 t ht),
      List.map_id']

lemma bare_placed (n : Nat) (flex : YType) :
    (placed σ n flex).bare = placed (fun m => (σ m).map bare) n flex.bare := by
  cases hn : σ n with
  | none => simp only [placed, hn, Option.map_none]
  | some u =>
    have hself : u.bare.setQualifiers (unqualified.union unqualified) = u.bare := by
      have hset := setQualifiers_qualifiers u.bare
      rwa [qualifiers_bare] at hset
    simp only [placed, hn, Option.map_some, bare_setQualifiers, qualifiers_bare, hself]

/-- Substitution is about the structure. -/
theorem bare_substitute (σ : Nat → Option YType) (t : YType) :
    (substitute σ t).bare = substitute (fun n => (σ n).map bare) t.bare := by
  induction t using YType.induct with
  | base k q =>
    rw [substitute, bare, substitute]
    split
    next => exact bare_placed 0 (base k q)
    next => rfl
  | flexT q => exact bare_placed 0 (flexT q)
  | nFlexT n q => exact bare_placed n (nFlexT n q)
  | variableT t q ih => rw [substitute, bare, bare, substitute, ih]
  | listT t q ih => rw [substitute, bare, bare, substitute, ih]
  | mapT k v q ihk ihv => rw [substitute, bare, bare, substitute, ihk, ihv]
  | blockT t q ih => rw [substitute, bare, bare, substitute, ih]
  | tupleT types q ih =>
    have hmap := List.map_congr_left ih
    simp only [substitute, bare, substituteList_eq_map, bareList_eq_map, List.map_map]
    exact congrArg (tupleT · unqualified) hmap
  | functionT r arguments q ihr ih =>
    have hmap := List.map_congr_left ih
    simp only [substitute, bare, substituteList_eq_map, bareList_eq_map, List.map_map, ihr]
    exact congrArg (functionT _ · unqualified) hmap

end Substitution

/-! ### When all of a flex is replaced -/

/-- The copy that takes the place of a flex is the type with the flex's qualifiers added: the type has
none of its own, and can be copied. -/
def covers (q : Qualifiers) (u : YType) : Bool :=
  u.clone.isSome && u.qualifiers.union q == q

mutual

/-- Every occurrence of the flex is reached, nothing else changes. -/
def replaceable (u : YType) (n : Nat) : YType → Bool
  | base k q => q == unqualified && !(k == .flexT && n == 0)
  | flexT q => if n = 0 then covers q u else q == unqualified
  | nFlexT m q => if m = n then covers q u else q == unqualified
  | variableT t q => q == unqualified && replaceable u n t
  | listT t q => q == unqualified && replaceable u n t
  | mapT keytype valuetype q =>
    q == unqualified &&
      if keytype.isFlex then replaceable u n keytype && !valuetype.flexes.contains n
      else !keytype.flexes.contains n &&
        if valuetype.isFlex then replaceable u n valuetype else !valuetype.flexes.contains n
  | blockT t q => q == unqualified && replaceable u n t
  | tupleT types q => q == unqualified && (!types.isEmpty && replaceableList u n types)
  | functionT r arguments q => q == unqualified && (replaceable u n r && replaceableList u n arguments)

def replaceableList (u : YType) (n : Nat) : List YType → Bool
  | [] => true
  | t :: types => replaceable u n t && replaceableList u n types

end

lemma clone_eq (t : YType) : t.clone = if t.clone.isSome then some (t.setQualifiers unqualified) else none := by
  cases t with
  | tupleT types q => cases types <;> rfl
  | _ => rfl

lemma clone_eq_some_iff {t : YType} (h : t.clone.isSome = true) : t.clone = some t ↔ t.qualifiers = unqualified := by
  rw [clone_eq, if_pos h, Option.some.injEq]
  constructor
  · intro heq
    rw [← heq, qualifiers_setQualifiers]
  · intro hq
    rw [← hq, setQualifiers_qualifiers]

lemma keepQualifiers_unqualified (q : Qualifiers) (t : YType) :
    keepQualifiers q (t.setQualifiers unqualified) = t.setQualifiers q := by
  obtain ⟨c, r⟩ := q
  cases t <;> cases c <;> cases r <;> rfl

lemma inPlaceOf_eq (q : Qualifiers) (u : YType) :
    inPlaceOf q u = if u.clone.isSome then some (u.setQualifiers q) else none := by
  cases hc : u.clone.isSome with
  | false =>
    rw [Option.isSome_eq_false_iff, Option.isNone_iff_eq_none] at hc
    rw [inPlaceOf, hc]
    rfl
  | true =>
    rw [inPlaceOf, clone_eq, if_pos hc, Option.map_some, keepQualifiers_unqualified, if_pos rfl]

lemma inPlaceOf_eq_some_iff {q : Qualifiers} {u : YType} :
    inPlaceOf q u = some (u.setQualifiers (u.qualifiers.union q)) ↔ covers q u = true := by
  rw [inPlaceOf_eq, covers, Bool.and_eq_true, beq_iff_eq]
  cases u.clone.isSome with
  | false => simp
  | true =>
    rw [if_pos rfl, Option.some.injEq]
    constructor
    · intro heq
      exact ⟨rfl, (setQualifiers_injective heq).symm⟩
    · rintro ⟨-, hq⟩
      rw [hq]

section Unflex

variable {u : YType} {n : Nat}

lemma single_self : single n u n = some u := if_pos rfl

lemma single_of_ne {m : Nat} (h : m ≠ n) : single n u m = none := if_neg h

lemma flexes_single (hu : u.flexes = []) (t : YType) :
    (substitute (single n u) t).flexes = t.flexes.filter (· ≠ n) := by
  rw [flexes_substitute]
  induction t.flexes with
  | nil => rfl
  | cons m flexes ih =>
    rw [List.flatMap_cons, ih]
    by_cases hm : m = n
    · simp [leaves, hm, single_self, hu]
    · simp [leaves, hm, single_of_ne hm]

lemma substitute_single_eq_self_iff (hu : u.flexes = []) {t : YType} :
    substitute (single n u) t = t ↔ n ∉ t.flexes := by
  constructor
  · intro heq hmem
    have hflexes := flexes_single hu t (n := n)
    rw [heq] at hflexes
    rw [hflexes, List.mem_filter] at hmem
    exact absurd hmem.2 (by simp)
  · intro hn
    refine substitute_eq_self fun m hm => single_of_ne ?_
    rintro rfl
    exact hn hm

lemma unflexTypes_eq_some_iff {types : List YType}
    (h : ∀ t ∈ types, unflex t u n = some (substitute (single n u) t) ↔ replaceable u n t = true) :
    unflexTypes types u n = some (substituteList (single n u) types) ↔ replaceableList u n types = true := by
  induction types with
  | nil => simp [unflexTypes, substituteList, replaceableList]
  | cons t types ih =>
    have hhead := h t List.mem_cons_self
    have htail := ih fun t' ht' => h t' (List.mem_cons_of_mem t ht')
    rw [unflexTypes, substituteList, replaceableList, Bool.and_eq_true, ← hhead, ← htail]
    cases unflex t u n <;> cases unflexTypes types u n <;> simp

/-- One part below an unqualified level. -/
lemma map_level_eq_some_iff {f : YType → Qualifiers → YType} (hf : ∀ t t' q q', f t q = f t' q' ↔ t = t' ∧ q = q')
    {r : Option YType} {t : YType} {b : Bool} (h : r = some t ↔ b = true) (q : Qualifiers) :
    (r.map fun t => f t unqualified) = some (f t q) ↔ (q == unqualified && b) = true := by
  rw [Bool.and_eq_true, beq_iff_eq, ← h]
  cases r with
  | none => simp
  | some t' =>
    rw [Option.map_some, Option.some.injEq, Option.some.injEq, hf, and_comm]
    exact and_congr_left' eq_comm

lemma unflex_flex_eq_some_iff {flex : YType} {m : Nat} (hclone : flex.clone.isSome = true) (c : Prop)
    [Decidable c] (hc : c ↔ m = n) :
    (if c then inPlaceOf flex.qualifiers u else flex.clone) = some (placed (single n u) m flex) ↔
      (if c then covers flex.qualifiers u else flex.qualifiers == unqualified) = true := by
  by_cases hm : m = n
  · rw [if_pos (hc.mpr hm), if_pos (hc.mpr hm), hm, placed, single_self]
    exact inPlaceOf_eq_some_iff
  · have hnot : ¬ c := fun h => hm (hc.mp h)
    rw [if_neg hnot, if_neg hnot, placed, single_of_ne hm, beq_iff_eq]
    exact clone_eq_some_iff hclone

lemma unflex_base_eq_some_iff (hu : u.flexes = []) (k : BaseKind) (q : Qualifiers) :
    unflex (base k q) u n = some (substitute (single n u) (base k q)) ↔
      replaceable u n (base k q) = true := by
  have hclone : unflex (base k q) u n = some (base k unqualified) := rfl
  rw [hclone, Option.some.injEq, replaceable, Bool.and_eq_true, beq_iff_eq]
  by_cases hocc : k = .flexT ∧ n = 0
  · obtain ⟨rfl, rfl⟩ := hocc
    simp only [beq_self_eq_true, Bool.and_self, Bool.not_true, Bool.false_eq_true, and_false, iff_false]
    intro heq
    have hflexes := congrArg flexes heq
    rw [flexes_single hu] at hflexes
    simp [flexes] at hflexes
  · have hself : substitute (single n u) (base k q) = base k q := by
      rw [substitute_single_eq_self_iff hu, flexes]
      split
      next hk =>
        rw [List.mem_singleton]
        exact fun hn => hocc ⟨hk, hn⟩
      next => exact List.not_mem_nil
    rw [hself, base.injEq]
    have hother : (!(k == .flexT && n == 0)) = true := by
      rw [Bool.not_eq_true', ← Bool.not_eq_true, Bool.and_eq_true, beq_iff_eq, beq_iff_eq]
      exact hocc
    simp only [true_and, hother, and_true]
    exact eq_comm

lemma unflex_map_eq_some_iff (hu : u.flexes = []) {k v : YType}
    (ihk : unflex k u n = some (substitute (single n u) k) ↔ replaceable u n k = true)
    (ihv : unflex v u n = some (substitute (single n u) v) ↔ replaceable u n v = true) (q : Qualifiers) :
    unflex (mapT k v q) u n = some (substitute (single n u) (mapT k v q)) ↔
      replaceable u n (mapT k v q) = true := by
  have hk := substitute_single_eq_self_iff hu (t := k) (n := n)
  have hv := substitute_single_eq_self_iff hu (t := v) (n := n)
  have hclone : (mapT k v q).clone = some (mapT k v unqualified) := rfl
  rw [unflex, substitute, replaceable, Bool.and_eq_true, beq_iff_eq, hclone]
  by_cases hkey : k.isFlex = true
  · rw [if_pos hkey, if_pos hkey, Bool.and_eq_true, ← ihk, Bool.not_eq_true', List.contains_eq_mem,
      decide_eq_false_iff_not, ← hv]
    cases unflex k u n with
    | none => simp
    | some k' =>
      simp only [Option.map_some, Option.some.injEq, mapT.injEq]
      grind
  · rw [if_neg hkey, if_neg hkey, Bool.and_eq_true, Bool.not_eq_true', List.contains_eq_mem,
      decide_eq_false_iff_not, ← hk]
    by_cases hvalue : v.isFlex = true
    · rw [if_pos hvalue, if_pos hvalue, ← ihv]
      cases unflex v u n with
      | none => simp
      | some v' =>
        simp only [Option.map_some, Option.some.injEq, mapT.injEq]
        grind
    · rw [if_neg hvalue, if_neg hvalue, Bool.not_eq_true', List.contains_eq_mem, decide_eq_false_iff_not,
        ← hv, Option.some.injEq, mapT.injEq]
      grind

/-- The substitution is made exactly on the types where all of the flex is reached. -/
theorem unflex_eq_some_iff (hu : u.flexes = []) (t : YType) :
    unflex t u n = some (substitute (single n u) t) ↔ replaceable u n t = true := by
  induction t using YType.induct with
  | base k q => exact unflex_base_eq_some_iff hu k q
  | flexT q =>
    rw [unflex, substitute, replaceable]
    exact unflex_flex_eq_some_iff (rfl : (flexT q).clone.isSome = true) (n = 0) eq_comm
  | nFlexT m q =>
    rw [unflex, substitute, replaceable]
    exact unflex_flex_eq_some_iff (rfl : (nFlexT m q).clone.isSome = true) (m = n) Iff.rfl
  | variableT t q ih => exact map_level_eq_some_iff (by simp) ih q
  | listT t q ih => exact map_level_eq_some_iff (by simp) ih q
  | mapT k v q ihk ihv => exact unflex_map_eq_some_iff hu ihk ihv q
  | blockT t q ih => exact map_level_eq_some_iff (by simp) ih q
  | tupleT types q ih =>
    have htypes := unflexTypes_eq_some_iff ih
    rw [unflex, substitute, replaceable]
    cases types with
    | nil => simp
    | cons t types =>
      rw [if_neg (by simp), Bool.and_eq_true, beq_iff_eq, Bool.and_eq_true, ← htypes]
      cases unflexTypes (t :: types) u n with
      | none => simp
      | some types' =>
        simp only [Option.map_some, Option.some.injEq, tupleT.injEq]
        grind
  | functionT r arguments q ihr ih =>
    have htypes := unflexTypes_eq_some_iff ih
    rw [unflex, substitute, replaceable, Bool.and_eq_true, beq_iff_eq, Bool.and_eq_true, ← ihr, ← htypes]
    cases unflex r u n with
    | none => simp
    | some r' =>
      cases unflexTypes arguments u n with
      | none => simp
      | some arguments' =>
        simp only [Option.bind_eq_bind, Option.bind_some, Option.pure_def, Option.some.injEq,
          functionT.injEq]
        grind

/-! ### The structure alone -/

lemma isFlex_bare (t : YType) : t.bare.isFlex = t.isFlex := by
  cases t <;> rfl

lemma isSome_clone_bare (t : YType) : t.bare.clone.isSome = t.clone.isSome := by
  cases t with
  | tupleT types q => cases types <;> rfl
  | _ => rfl

lemma inPlaceOf_bare (q : Qualifiers) (u : YType) :
    inPlaceOf unqualified u.bare = (inPlaceOf q u).map bare := by
  rw [inPlaceOf_eq, inPlaceOf_eq, isSome_clone_bare]
  split
  · have hself := setQualifiers_qualifiers u.bare
    rw [qualifiers_bare] at hself
    rw [hself, Option.map_some, bare_setQualifiers]
  · rfl

lemma unflexTypes_bare {types : List YType}
    (h : ∀ t ∈ types, unflex t.bare u.bare n = (unflex t u n).map bare) :
    unflexTypes (bareList types) u.bare n = (unflexTypes types u n).map bareList := by
  induction types with
  | nil => rfl
  | cons t types ih =>
    have htail := ih fun t' ht' => h t' (List.mem_cons_of_mem t ht')
    rw [bareList, unflexTypes, unflexTypes, h t List.mem_cons_self, htail]
    cases unflex t u n with
    | none => rfl
    | some t' => cases unflexTypes types u n <;> rfl

/-- What `unflex` does to the structure does not depend on the qualifiers. -/
theorem unflex_bare (t u : YType) (n : Nat) : unflex t.bare u.bare n = (unflex t u n).map bare := by
  induction t using YType.induct with
  | base k q => rfl
  | flexT q =>
    rw [bare, unflex, unflex]
    split
    · exact inPlaceOf_bare q u
    · rfl
  | nFlexT m q =>
    rw [bare, unflex, unflex]
    split
    · exact inPlaceOf_bare q u
    · rfl
  | variableT t q ih =>
    rw [bare, unflex, unflex, ih]
    cases unflex t u n <;> rfl
  | listT t q ih =>
    rw [bare, unflex, unflex, ih]
    cases unflex t u n <;> rfl
  | mapT k v q ihk ihv =>
    rw [bare, unflex, unflex, ihk, ihv, isFlex_bare, isFlex_bare]
    split
    · cases unflex k u n <;> rfl
    split
    · cases unflex v u n <;> rfl
    · rfl
  | blockT t q ih =>
    rw [bare, unflex, unflex, ih]
    cases unflex t u n <;> rfl
  | tupleT types q ih =>
    have hempty : (bareList types).isEmpty = types.isEmpty := by cases types <;> rfl
    rw [bare, unflex, unflex, unflexTypes_bare ih, hempty]
    split
    · rfl
    · cases unflexTypes types u n <;> rfl
  | functionT r arguments q ihr ih =>
    rw [bare, unflex, unflex, unflexTypes_bare ih, ihr]
    cases unflex r u n with
    | none => rfl
    | some r' => cases unflexTypes arguments u n <;> rfl

lemma flexes_bare (t : YType) : t.bare.flexes = t.flexes := by
  induction t using YType.induct with
  | base k q => rfl
  | flexT q => rfl
  | nFlexT m q => rfl
  | variableT t q ih => exact ih
  | listT t q ih => exact ih
  | mapT k v q ihk ihv => rw [bare, flexes, flexes, ihk, ihv]
  | blockT t q ih => exact ih
  | tupleT types q ih =>
    rw [bare, flexes, flexes, flexesList_eq_flatMap, flexesList_eq_flatMap, bareList_eq_map, List.flatMap_map]
    exact List.flatMap_congr ih
  | functionT r arguments q ihr ih =>
    rw [bare, flexes, flexes, flexesList_eq_flatMap, flexesList_eq_flatMap, bareList_eq_map,
      List.flatMap_map, ihr]
    congr 1
    exact List.flatMap_congr ih

end Unflex

/-! ### `unflex` as a substitution -/

/-- No occurrence of the flex is left, the others are the ones there were, in their order. -/
def Eliminates (n : Nat) (t r : YType) : Prop := n ∉ r.flexes ∧ r.flexes = t.flexes.filter (· ≠ n)

lemma eliminates_of_flexes {n : Nat} {u t r : YType} (hu : u.flexes = [])
    (h : r.flexes = (substitute (single n u) t).flexes) : Eliminates n t r := by
  rw [flexes_single hu] at h
  refine ⟨?_, h⟩
  rw [h, List.mem_filter]
  simp

/-- What `unflex` returns is the type with every occurrence of the flex replaced, and the other flexes
alone, exactly where it reaches them all: in structure, and with the qualifiers. -/
theorem unflex_replaces_iff (t u : YType) (n : Nat) (hu : u.flexes = []) :
    ((∃ r, unflex t u n = some r ∧ Eliminates n t r ∧ r.bare = (substitute (single n u) t).bare) ↔
      replaceable u.bare n t.bare = true) ∧
    ((∃ r, unflex t u n = some r ∧ Eliminates n t r ∧ r = substitute (single n u) t) ↔
      replaceable u n t = true) := by
  constructor
  · have hsingle : (fun m => (single n u m).map bare) = single n u.bare := by
      funext m
      by_cases hm : m = n
      · rw [hm, single_self, single_self, Option.map_some]
      · rw [single_of_ne hm, single_of_ne hm, Option.map_none]
    have hflexes : u.bare.flexes = [] := by rw [flexes_bare, hu]
    rw [← unflex_eq_some_iff hflexes, unflex_bare, bare_substitute, hsingle, Option.map_eq_some_iff]
    constructor
    · rintro ⟨r, hr, -, hbare⟩
      exact ⟨r, hr, hbare⟩
    · rintro ⟨r, hr, hbare⟩
      refine ⟨r, hr, eliminates_of_flexes hu ?_, hbare⟩
      rw [← flexes_bare r, hbare, ← hsingle, ← bare_substitute, flexes_bare]
  · rw [← unflex_eq_some_iff hu]
    constructor
    · rintro ⟨r, hr, -, heq⟩
      rw [hr, heq]
    · intro heq
      exact ⟨_, heq, eliminates_of_flexes hu rfl, rfl⟩

/-- `map <flex, list <integer>>` and `string`. -/
theorem unflex_replaces_key :
    ∃ r, unflex (mapT (flexT unqualified) (listT (base .integerT unqualified) unqualified) unqualified)
        (base .stringT unqualified) 0 = some r ∧
      Eliminates 0 (mapT (flexT unqualified) (listT (base .integerT unqualified) unqualified) unqualified) r ∧
      r = substitute (single 0 (base .stringT unqualified))
        (mapT (flexT unqualified) (listT (base .integerT unqualified) unqualified) unqualified) :=
  (unflex_replaces_iff _ _ 0 (by rfl)).2.mpr (by decide)

/-- `map <flex1, flex1>`: the flex of the values stays. -/
theorem unflex_keeps_value :
    (base .stringT unqualified).flexes = [] ∧
    ∃ r, unflex (mapT (nFlexT 1 unqualified) (nFlexT 1 unqualified) unqualified) (base .stringT unqualified) 1 =
        some r ∧
      ¬ Eliminates 1 (mapT (nFlexT 1 unqualified) (nFlexT 1 unqualified) unqualified) r :=
  ⟨rfl, mapT (base .stringT unqualified) (nFlexT 1 unqualified) unqualified, rfl, fun h => h.1 (by decide)⟩

end YType

end YastCore
