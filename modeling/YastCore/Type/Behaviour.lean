import YastCore.Type.Match
import YastCore.Type.Bytecode
import YastCore.Type.Unflex

/-!
# The behaviour of types read from bytecode

`Bytecode::readType` gives every kind its class again, but for `flex`, which comes back as a plain type.
A plain type of that kind is printed as the flex is; it is matched and replaced as a base type.
-/

namespace YastCore

open Codec Bytecode

namespace YType

mutual

/-- An object of class `FlexType` is in the type. -/
def hasFlexType : YType → Bool
  | base _ _ => false
  | flexT _ => true
  | nFlexT _ _ => false
  | variableT t _ => hasFlexType t
  | listT t _ => hasFlexType t
  | mapT k v _ => hasFlexType k || hasFlexType v
  | blockT t _ => hasFlexType t
  | tupleT types _ => hasFlexTypeList types
  | functionT r arguments _ => hasFlexType r || hasFlexTypeList arguments

def hasFlexTypeList : List YType → Bool
  | [] => false
  | t :: types => hasFlexType t || hasFlexTypeList types

end

lemma hasFlexTypeList_iff {types : List YType} :
    hasFlexTypeList types = false ↔ ∀ t ∈ types, hasFlexType t = false := by
  induction types with
  | nil => simp [hasFlexTypeList]
  | cons t types ih => simp [hasFlexTypeList, ih]

/-- The two types answer alike, whatever they are asked. -/
def BehavesAs (s t : YType) : Prop :=
  ∀ u n, matchType s u = matchType t u ∧ matchType u s = matchType u t ∧
    matchFlex s u n = matchFlex t u n ∧ unflex s u n = unflex t u n

/-! ### What is read back -/

lemma streamed_eq_self {t : YType} (h : t.hasFlexType = false) : streamed t = t := by
  induction t using YType.induct with
  | base k q => rfl
  | flexT q => cases h
  | nFlexT n q => rfl
  | variableT t q ih => rw [streamed, ih h]
  | listT t q ih => rw [streamed, ih h]
  | mapT k v q ihk ihv =>
    rw [hasFlexType, Bool.or_eq_false_iff] at h
    rw [streamed, ihk h.1, ihv h.2]
  | blockT t q ih => rw [streamed, ih h]
  | tupleT types q ih =>
    rw [hasFlexType, hasFlexTypeList_iff] at h
    rw [streamed, streamedList_eq_map, List.map_congr_left fun t ht => ih t ht (h t ht), List.map_id']
  | functionT r arguments q ihr ih =>
    rw [hasFlexType, Bool.or_eq_false_iff, hasFlexTypeList_iff] at h
    rw [streamed, streamedList_eq_map, ihr h.1, List.map_congr_left fun t ht => ih t ht (h.2 t ht),
      List.map_id']

lemma hasFlexType_streamed (t : YType) : (streamed t).hasFlexType = false := by
  induction t using YType.induct with
  | base k q => rfl
  | flexT q => rfl
  | nFlexT n q => rfl
  | variableT t q ih => exact ih
  | listT t q ih => exact ih
  | mapT k v q ihk ihv => rw [streamed, hasFlexType, ihk, ihv, Bool.or_self]
  | blockT t q ih => exact ih
  | tupleT types q ih =>
    rw [streamed, hasFlexType, streamedList_eq_map, hasFlexTypeList_iff, List.forall_mem_map]
    exact ih
  | functionT r arguments q ihr ih =>
    rw [streamed, hasFlexType, ihr, streamedList_eq_map, Bool.false_or, hasFlexTypeList_iff,
      List.forall_mem_map]
    exact ih

/-! ### Another flex is replaced -/

section Unflex

variable {u : YType} {n : Nat}

lemma hasFlexType_setQualifiers (q : Qualifiers) (t : YType) :
    (t.setQualifiers q).hasFlexType = t.hasFlexType := by
  cases t <;> rfl

lemma hasFlexTypeList_congr {types types' : List YType}
    (h : List.Forall₂ (fun t r => hasFlexType r = hasFlexType t) types types') :
    hasFlexTypeList types' = hasFlexTypeList types := by
  induction h with
  | nil => rfl
  | cons hhead _ ih => rw [hasFlexTypeList, hasFlexTypeList, hhead, ih]

/-- Replacing a numbered flex neither makes an object of class `FlexType` nor takes one away. -/
theorem hasFlexType_unflex (hn : n ≠ 0) (hu : u.hasFlexType = false) {t r : YType}
    (h : unflex t u n = some r) : r.hasFlexType = t.hasFlexType := by
  refine unflex_induct (motive := fun t r => r.hasFlexType = t.hasFlexType) ?base ?flexT ?otherFlexT ?nFlexT
    ?otherNFlexT ?variableT ?listT ?blockT ?key ?value ?neither ?tupleT ?functionT h
  case base | otherFlexT | otherNFlexT | neither =>
    intros
    rfl
  case flexT => exact fun q hzero => absurd hzero hn
  case nFlexT =>
    intro q
    rw [hasFlexType_setQualifiers, hu, hasFlexType]
  case variableT | listT | blockT =>
    intro t t' q ih
    exact ih
  case key =>
    intro k k' v q _ _ ih
    rw [hasFlexType, hasFlexType, ih]
  case value =>
    intro k v v' q _ _ _ ih
    rw [hasFlexType, hasFlexType, ih]
  case tupleT =>
    intro types types' q ih
    exact hasFlexTypeList_congr ih
  case functionT =>
    intro r r' types types' q ihr ih
    rw [hasFlexType, hasFlexType, ihr, hasFlexTypeList_congr ih]

end Unflex

/-- A type comes back with its behaviour exactly when it has no object of class `FlexType`. -/
theorem readType_behaves_iff {τ : Type} (st : τ) (t : YType) (hfits : t.fits = true)
    (hconstructed : t.constructed = true) :
    (∃ s, Reads readType st t.toStream s st ∧ BehavesAs s t) ↔ t.hasFlexType = false := by
  constructor
  · rintro ⟨s, hreads, hbehaves⟩
    have hs : s = streamed t := (hreads.unique (reads_readType st hfits)).1
    obtain ⟨-, -, -, hunflex⟩ := hbehaves (base .integerT unqualified) 1
    have hinteger : (base .integerT unqualified).constructed = true := rfl
    obtain ⟨r, hr, -⟩ : ∃ r, unflex t (base .integerT unqualified) 1 = some r ∧ r.constructed = true :=
      unflex_constructed hinteger hconstructed
    have hreplaced := hasFlexType_unflex Nat.one_ne_zero rfl hr
    rw [← hunflex, hs] at hr
    rw [← hreplaced, hasFlexType_unflex Nat.one_ne_zero rfl hr, hasFlexType_streamed]
  · intro h
    have hreads := reads_readType st hfits
    rw [streamed_eq_self h] at hreads
    exact ⟨t, hreads, fun u n => ⟨rfl, rfl, rfl, rfl⟩⟩

/-- `map <flex1, list <const integer>>`. -/
theorem readType_behaves_map :
    ∃ s, Reads readType () (mapT (nFlexT 1 unqualified) (listT (base .integerT ⟨true, false⟩) unqualified)
        unqualified).toStream s () ∧
      BehavesAs s (mapT (nFlexT 1 unqualified) (listT (base .integerT ⟨true, false⟩) unqualified) unqualified) :=
  (readType_behaves_iff () _ (by decide) (by decide)).mpr (by decide)

/-- A `flex` is read back as a type that `any` accepts. -/
theorem readType_flex :
    (flexT unqualified).fits = true ∧ (flexT unqualified).constructed = true ∧
    ∀ s, Reads readType () (flexT unqualified).toStream s () →
      matchType s (base .anyT unqualified) = some 0 ∧
      matchType (flexT unqualified) (base .anyT unqualified) = some (-1) ∧
      ¬ BehavesAs s (flexT unqualified) := by
  refine ⟨rfl, rfl, fun s hreads => ?_⟩
  have hs : s = base .flexT unqualified := (hreads.unique (reads_readType () rfl)).1
  have hread : matchType s (base .anyT unqualified) = some 0 := by
    rw [hs]
    rfl
  have hflex : matchType (flexT unqualified) (base .anyT unqualified) = some (-1) := by rfl
  refine ⟨hread, hflex, fun hbehaves => ?_⟩
  have hmatch := (hbehaves (base .anyT unqualified) 0).1
  rw [hread, hflex] at hmatch
  cases hmatch

end YType

end YastCore
