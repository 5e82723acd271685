import Mathlib.Data.List.Forall2
import YastCore.Type.Flex

/-!
# Replacing flex types

What `Type::matchFlex` finds is a part of the actual type. What `Type::unflex` leaves of a type is shown
by one induction over the parts that it visits.
-/

namespace YastCore.YType

/-! ### What is found -/

lemma mem_flexesList {types : List YType} {m : Nat} : m ∈ flexesList types ↔ ∃ t ∈ types, m ∈ t.flexes := by
  rw [flexesList_eq_flatMap, List.mem_flatMap]

/-- A flex is found in an argument that stands before any argument of error type. -/
lemma matchFlexTypes_eq_some {types types' : List YType} {n : Nat} {τ : YType}
    (h : matchFlexTypes types types' n = some τ) :
    ∃ p ∈ (types.zip types').takeWhile fun p => !p.2.isError, matchFlex p.1 p.2 n = some τ := by
  induction types generalizing types' with
  | nil => cases types' <;> cases h
  | cons t types ih =>
    cases types' with
    | nil => cases h
    | cons t' types' =>
      rw [matchFlexTypes] at h
      split at h
      · cases h
      next herror =>
        rw [Bool.not_eq_true] at herror
        rw [List.zip_cons_cons, List.takeWhile_cons_of_pos (by simp [herror])]
        split at h
        next flex hflex => exact ⟨(t, t'), List.mem_cons_self, hflex.trans h⟩
        next =>
          obtain ⟨p, hp, hmatch⟩ := ih h
          exact ⟨p, List.mem_cons_of_mem _ hp, hmatch⟩

lemma isSome_matchFlexTypes {types types' : List YType} {n : Nat}
    (h : ∃ p ∈ (types.zip types').takeWhile fun p => !p.2.isError, (matchFlex p.1 p.2 n).isSome = true) :
    (matchFlexTypes types types' n).isSome = true := by
  induction types generalizing types' with
  | nil => 
    obtain ⟨p, hp, _⟩ := h
    cases hp
  | cons t types ih =>
    cases types' with
    | nil =>
      obtain ⟨p, hp, _⟩ := h
      cases hp
    | cons t' types' =>
      rw [matchFlexTypes]
      cases herror : t'.isError with
      | true => simp [herror] at h
      | false =>
        rw [if_neg Bool.false_ne_true]
        cases hmatch : matchFlex t t' n with
        | some flex => rfl
        | none =>
          refine ih ?_
          rw [List.zip_cons_cons, List.takeWhile_cons_of_pos (by simp [herror])] at h
          obtain ⟨p, hp, hp'⟩ := h
          obtain rfl | hp := List.mem_cons.mp hp
          · rw [hmatch] at hp'
            cases hp'
          · exact ⟨p, hp, hp'⟩

/-- A property that the parts of a type have with it. -/
structure PartClosed (P : YType → Prop) : Prop where
  any : P (base .anyT unqualified)
  variableT (t : YType) (q : Qualifiers) : P (variableT t q) → P t
  listT (t : YType) (q : Qualifiers) : P (listT t q) → P t
  mapT (k v : YType) (q : Qualifiers) : P (mapT k v q) → P k ∧ P v
  blockT (t : YType) (q : Qualifiers) : P (blockT t q) → P t
  tupleT (types : List YType) (q : Qualifiers) : P (tupleT types q) → ∀ t ∈ types, P t
  functionT (r : YType) (types : List YType) (q : Qualifiers) : P (functionT r types q) → ∀ t ∈ types, P t

lemma PartClosed.flexValue {P : YType → Prop} (hP : PartClosed P) {t : YType} (ht : P t) :
    P (flexValue t) := by
  rw [YType.flexValue]
  split
  · exact hP.any
  · exact ht

lemma partClosed_flexes (p : Nat → Prop) : PartClosed fun t => ∀ m ∈ t.flexes, p m where
  any := nofun
  variableT _ _ h := h
  listT _ _ h := h
  mapT _ _ _ h := List.forall_mem_append.mp h
  blockT _ _ h := h
  tupleT _ _ h _ ht m hm := h m (mem_flexesList.mpr ⟨_, ht, hm⟩)
  functionT _ _ _ h _ ht m hm := h m (List.mem_append_right _ (mem_flexesList.mpr ⟨_, ht, hm⟩))

/-- What is found for a type stands for one of its flexes and is a part of the other type. -/
def FoundIn (n : Nat) (τ : YType) (t t' : YType) : Prop :=
  n ∈ t.flexes ∧ ∀ P, PartClosed P → P t' → P τ

lemma foundIn_matchFlexTypes {types types' : List YType} {n : Nat} {τ : YType}
    (hparts : ∀ t ∈ types, ∀ {t'}, matchFlex t t' n = some τ → FoundIn n τ t t')
    (h : matchFlexTypes types types' n = some τ) :
    n ∈ flexesList types ∧ ∀ P, PartClosed P → (∀ t ∈ types', P t) → P τ := by
  obtain ⟨p, hp, hmatch⟩ := matchFlexTypes_eq_some h
  obtain ⟨ht, ht'⟩ := List.of_mem_zip ((List.takeWhile_prefix _).subset hp)
  obtain ⟨hn, hτ⟩ := hparts p.1 ht hmatch
  exact ⟨mem_flexesList.mpr ⟨p.1, ht, hn⟩, fun P hP htypes => hτ P hP (htypes p.2 ht')⟩

lemma foundIn_matchFlex {t t' τ : YType} {n : Nat} (h : matchFlex t t' n = some τ) : FoundIn n τ t t' := by
  induction t using YType.induct generalizing t' with
  | base k q => cases h
  | flexT q =>
    rw [matchFlex] at h
    split at h
    · cases h
    next hn =>
      cases h
      rw [not_not] at hn
      exact ⟨by simp [flexes, hn], fun P hP ht' => hP.flexValue ht'⟩
  | nFlexT m q =>
    rw [matchFlex] at h
    split at h
    · cases h
    next hn =>
      cases h
      rw [not_or, not_not] at hn
      exact ⟨by simp [flexes, hn.2], fun P hP ht' => hP.flexValue ht'⟩
  | variableT t q ih =>
    cases t' with
    | variableT t' q' =>
      rw [matchFlex] at h
      exact ⟨(ih h).1, fun P hP ht' => (ih h).2 P hP (hP.variableT t' q' ht')⟩
    | _ => cases h
  | listT t q ih =>
    cases t' with
    | listT t' q' =>
      rw [matchFlex] at h
      exact ⟨(ih h).1, fun P hP ht' => (ih h).2 P hP (hP.listT t' q' ht')⟩
    | _ => cases h
  | mapT k v q ihk ihv =>
    cases t' with
    | mapT k' v' q' =>
      rw [matchFlex] at h
      cases hv : matchFlex v v' n with
      | some flex =>
        simp only [hv] at h
        cases h
        obtain ⟨hn, hτ⟩ := ihv hv
        exact ⟨List.mem_append_right _ hn, fun P hP ht' => hτ P hP (hP.mapT k' v' q' ht').2⟩
      | none =>
        simp only [hv] at h
        obtain ⟨hn, hτ⟩ := ihk h
        exact ⟨List.mem_append_left _ hn, fun P hP ht' => hτ P hP (hP.mapT k' v' q' ht').1⟩
    | _ => cases h
  | blockT t q ih =>
    cases t' with
    | blockT t' q' =>
      rw [matchFlex] at h
      exact ⟨(ih h).1, fun P hP ht' => (ih h).2 P hP (hP.blockT t' q' ht')⟩
    | _ => cases h
  | tupleT types q ih =>
    cases t' with
    | tupleT types' q' =>
      rw [matchFlex] at h
      obtain ⟨hn, hτ⟩ := foundIn_matchFlexTypes ih h
      exact ⟨hn, fun P hP ht' => hτ P hP (hP.tupleT types' q' ht')⟩
    | _ => cases h
  | functionT r arguments q _ ih =>
    cases t' with
    | functionT r' arguments' q' =>
      rw [matchFlex] at h
      obtain ⟨hn, hτ⟩ := foundIn_matchFlexTypes ih h
      exact ⟨List.mem_append_right _ hn, fun P hP ht' => hτ P hP (hP.functionT r' arguments' q' ht')⟩
    | _ => cases h

/-! ### What `unflex` visits -/

section Unflex

variable {u : YType} {n : Nat}

lemma forall₂_of_unflexTypes {motive : YType → YType → Prop} {types types' : List YType}
    (hmotive : ∀ t ∈ types, ∀ {t'}, unflex t u n = some t' → motive t t')
    (h : unflexTypes types u n = some types') : List.Forall₂ motive types types' := by
  induction types generalizing types' with
  | nil =>
    rw [unflexTypes, Option.some.injEq] at h
    exact h ▸ List.Forall₂.nil
  | cons t types ih =>
    simp only [unflexTypes, Option.bind_eq_bind, Option.bind_eq_some_iff, Option.pure_def,
      Option.some.injEq] at h
    obtain ⟨t', ht', types', htypes', rfl⟩ := h
    refine List.Forall₂.cons (hmotive t List.mem_cons_self ht') (ih ?_ htypes')
    exact fun t'' ht'' => hmotive t'' (List.mem_cons_of_mem t ht'')

/-- Below a map only one of its two types is looked at. -/
lemma unflex_mapT {k v r : YType} {q : Qualifiers} (h : unflex (mapT k v q) u n = some r) :
    (k.isFlex = true ∧ ∃ k', unflex k u n = some k' ∧ r = mapT k' v unqualified) ∨
      (k.isFlex = false ∧ v.isFlex = true ∧ ∃ v', unflex v u n = some v' ∧ r = mapT k v' unqualified) ∨
      (k.isFlex = false ∧ v.isFlex = false ∧ r = mapT k v unqualified) := by
  rw [unflex] at h
  by_cases hk : k.isFlex = true
  · rw [if_pos hk, Option.map_eq_some_iff] at h
    obtain ⟨k', hk', rfl⟩ := h
    exact Or.inl ⟨hk, k', hk', rfl⟩
  · rw [if_neg hk] at h
    rw [Bool.not_eq_true] at hk
    by_cases hv : v.isFlex = true
    · rw [if_pos hv, Option.map_eq_some_iff] at h
      obtain ⟨v', hv', rfl⟩ := h
      exact Or.inr (Or.inl ⟨hk, hv, v', hv', rfl⟩)
    · rw [if_neg hv] at h
      rw [Bool.not_eq_true] at hv
      exact Or.inr (Or.inr ⟨hk, hv, (Option.some.inj h).symm⟩)

/-- Induction over what `unflex` visits, where it comes back. -/
lemma unflex_induct {motive : YType → YType → Prop}
    (base : ∀ k q, motive (base k q) (base k unqualified))
    (flexT : ∀ q, n = 0 → motive (flexT q) (u.setQualifiers q))
    (otherFlexT : ∀ q, n ≠ 0 → motive (.flexT q) (.flexT unqualified))
    (nFlexT : ∀ q, motive (nFlexT n q) (u.setQualifiers q))
    (otherNFlexT : ∀ m q, m ≠ n → motive (.nFlexT m q) (.nFlexT m unqualified))
    (variableT : ∀ t t' q, motive t t' → motive (variableT t q) (variableT t' unqualified))
    (listT : ∀ t t' q, motive t t' → motive (listT t q) (listT t' unqualified))
    (blockT : ∀ t t' q, motive t t' → motive (blockT t q) (blockT t' unqualified))
    (key : ∀ k k' v q, k.isFlex = true → unflex k u n = some k' → motive k k' →
      motive (mapT k v q) (mapT k' v unqualified))
    (value : ∀ k v v' q, k.isFlex = false → v.isFlex = true → unflex v u n = some v' → motive v v' →
      motive (mapT k v q) (mapT k v' unqualified))
    (neither : ∀ k v q, k.isFlex = false → v.isFlex = false →
      motive (mapT k v q) (mapT k v unqualified))
    (tupleT : ∀ types types' q, List.Forall₂ motive types types' →
      motive (tupleT types q) (tupleT types' unqualified))
    (functionT : ∀ r r' types types' q, motive r r' → List.Forall₂ motive types types' →
      motive (functionT r types q) (functionT r' types' unqualified))
    {t r : YType} (h : unflex t u n = some r) : motive t r := by
  have hplace {r : YType} (q : Qualifiers) (h : inPlaceOf q u = some r) : r = u.setQualifiers q := by
    rw [inPlaceOf_eq] at h
    split at h
    · exact (Option.some.inj h).symm
    · cases h
  induction t using YType.induct generalizing r with
  | base k q =>
    cases h
    exact base k q
  | flexT q =>
    rw [unflex] at h
    split at h
    next hn => exact hplace q h ▸ flexT q hn
    next hn =>
      cases h
      exact otherFlexT q hn
  | nFlexT m q =>
    rw [unflex] at h
    split at h
    next hm =>
      subst hm
      exact hplace q h ▸ nFlexT q
    next hm =>
      cases h
      exact otherNFlexT m q hm
  | variableT t q ih =>
    rw [unflex, Option.map_eq_some_iff] at h
    obtain ⟨t', ht', rfl⟩ := h
    exact variableT t t' q (ih ht')
  | listT t q ih =>
    rw [unflex, Option.map_eq_some_iff] at h
    obtain ⟨t', ht', rfl⟩ := h
    exact listT t t' q (ih ht')
  | mapT k v q ihk ihv =>
    obtain ⟨hk, k', hk', rfl⟩ | ⟨hk, hv, v', hv', rfl⟩ | ⟨hk, hv, rfl⟩ := unflex_mapT h
    · exact key k k' v q hk hk' (ihk hk')
    · exact value k v v' q hk hv hv' (ihv hv')
    · exact neither k v q hk hv
  | blockT t q ih =>
    rw [unflex, Option.map_eq_some_iff] at h
    obtain ⟨t', ht', rfl⟩ := h
    exact blockT t t' q (ih ht')
  | tupleT types q ih =>
    rw [unflex] at h
    split at h
    · cases h
    · rw [Option.map_eq_some_iff] at h
      obtain ⟨types', htypes', rfl⟩ := h
      exact tupleT types types' q (forall₂_of_unflexTypes ih htypes')
  | functionT r arguments q ihr ih =>
    simp only [unflex, Option.bind_eq_bind, Option.bind_eq_some_iff, Option.pure_def,
      Option.some.injEq] at h
    obtain ⟨r', hr', types', htypes', rfl⟩ := h
    exact functionT r r' arguments types' q (ihr hr') (forall₂_of_unflexTypes ih htypes')

/-- How the flexes of a type and of what comes back belong together. -/
def KeepsFlexes (u : YType) (n : Nat) (flexes flexes' : List Nat) : Prop :=
  (∀ m ∈ flexes, m ≠ n → m ∈ flexes') ∧ ∀ m ∈ flexes', m ∈ flexes ∨ m ∈ u.flexes

lemma KeepsFlexes.refl (flexes : List Nat) : KeepsFlexes u n flexes flexes :=
  ⟨fun _ hm _ => hm, fun _ hm => Or.inl hm⟩

lemma KeepsFlexes.replaced : KeepsFlexes u n [n] u.flexes :=
  ⟨fun _ hm hne => absurd (List.mem_singleton.mp hm) hne, fun _ hm => Or.inr hm⟩

lemma KeepsFlexes.append {a a' b b' : List Nat} (ha : KeepsFlexes u n a a') (hb : KeepsFlexes u n b b') :
    KeepsFlexes u n (a ++ b) (a' ++ b') := by
  constructor
  · intro m hm hne
    rw [List.mem_append] at hm ⊢
    exact hm.imp (ha.1 m · hne) (hb.1 m · hne)
  · intro m hm
    rw [List.mem_append] at hm ⊢
    obtain hm | hm := hm
    · exact (ha.2 m hm).imp_left Or.inl
    · exact (hb.2 m hm).imp_left Or.inr

lemma KeepsFlexes.list {types types' : List YType}
    (h : List.Forall₂ (fun t t' => KeepsFlexes u n t.flexes t'.flexes) types types') :
    KeepsFlexes u n (flexesList types) (flexesList types') := by
  induction h with
  | nil => exact KeepsFlexes.refl []
  | cons hhead _ ih => exact hhead.append ih

/-- The other flexes stay, and none comes from elsewhere. -/
lemma keepsFlexes_unflex {t r : YType} (h : unflex t u n = some r) : KeepsFlexes u n t.flexes r.flexes := by
  refine unflex_induct (motive := fun t r => KeepsFlexes u n t.flexes r.flexes) ?base ?flexT ?otherFlexT
    ?nFlexT ?otherNFlexT ?variableT ?listT ?blockT ?key ?value ?neither ?tupleT ?functionT h
  case base | otherFlexT | otherNFlexT | neither =>
    intros
    exact KeepsFlexes.refl _
  case flexT =>
    rintro q rfl
    rw [flexes_setQualifiers]
    exact KeepsFlexes.replaced
  case nFlexT =>
    intro q
    rw [flexes_setQualifiers]
    exact KeepsFlexes.replaced
  case variableT | listT | blockT =>
    intro t t' q ih
    exact ih
  case key =>
    intro k k' v q _ _ ih
    exact ih.append (KeepsFlexes.refl _)
  case value =>
    intro k v v' q _ _ _ ih
    exact (KeepsFlexes.refl _).append ih
  case tupleT =>
    intro types types' q ih
    exact KeepsFlexes.list ih
  case functionT =>
    intro r r' types types' q ihr ih
    exact ihr.append (KeepsFlexes.list ih)

lemma matchFlex_eq_none {t : YType} {m : Nat} (hm : m ∉ t.flexes) (t' : YType) : matchFlex t t' m = none := by
  cases h : matchFlex t t' m with
  | none => rfl
  | some τ => exact absurd (foundIn_matchFlex h).1 hm

lemma matchFlexTypes_congr {types types' : List YType} {m : Nat}
    (h : List.Forall₂ (fun t t' => ∀ a, matchFlex t' a m = matchFlex t a m) types types')
    (arguments : List YType) : matchFlexTypes types' arguments m = matchFlexTypes types arguments m := by
  induction h generalizing arguments with
  | nil => rfl
  | cons hhead _ ih =>
    cases arguments with
    | nil => rfl
    | cons a arguments => rw [matchFlexTypes, matchFlexTypes, hhead, ih]

/-- What the other flexes are found to stand for does not change. -/
lemma matchFlex_unflex (hu : u.flexes = []) {t r : YType} {m : Nat} (hm : m ≠ n)
    (h : unflex t u n = some r) (a : YType) : matchFlex r a m = matchFlex t a m := by
  revert a
  have hplaced (flex : YType) (hflex : flex.flexes = [n]) (q : Qualifiers) (a : YType) :
      matchFlex (u.setQualifiers q) a m = matchFlex flex a m := by
    have hnot : m ∉ (u.setQualifiers q).flexes := by
      rw [flexes_setQualifiers, hu]
      exact List.not_mem_nil
    have hnot' : m ∉ flex.flexes := by
      rw [hflex, List.mem_singleton]
      exact hm
    rw [matchFlex_eq_none hnot, matchFlex_eq_none hnot']
  refine unflex_induct (motive := fun t r => ∀ a, matchFlex r a m = matchFlex t a m) ?base ?flexT
    ?otherFlexT ?nFlexT ?otherNFlexT ?variableT ?listT ?blockT ?key ?value ?neither ?tupleT ?functionT h
  case base | otherFlexT | otherNFlexT | neither =>
    intros
    rfl
  case flexT =>
    rintro q rfl
    exact hplaced _ rfl q
  case nFlexT => exact fun q => hplaced _ rfl q
  case variableT | listT | blockT =>
    intro t t' q ih a
    cases a <;> first | rfl | exact ih _
  case key =>
    intro k k' v q _ _ ih a
    cases a <;> first | rfl | simp only [matchFlex, ih]
  case value =>
    intro k v v' q _ _ _ ih a
    cases a <;> first | rfl | simp only [matchFlex, ih]
  case tupleT =>
    intro types types' q ih a
    cases a <;> first | rfl | exact matchFlexTypes_congr ih _
  case functionT =>
    intro r r' types types' q _ ih a
    cases a <;> first | rfl | exact matchFlexTypes_congr ih _

/-! ### `unflex` as one substitution -/

lemma bare_eq_of_untouched {t t' : YType} (hbare : t'.bare = t.bare) (hn : n ∉ t.flexes) :
    t'.bare = (substitute (single n u) t).bare := by
  have hself : substitute (single n u) t = t := by
    refine substitute_eq_self fun m hm => single_of_ne ?_
    rintro rfl
    exact hn hm
  rw [hself, hbare]

lemma bareList_eq_of_forall₂ {types types' : List YType}
    (h : List.Forall₂ (fun t t' => n ∉ t'.flexes → t'.bare = (substitute (single n u) t).bare) types types')
    (hn : n ∉ flexesList types') : bareList types' = bareList (substituteList (single n u) types) := by
  induction h with
  | nil => rfl
  | cons hhead _ ih =>
    rw [flexesList, List.mem_append, not_or] at hn
    rw [bareList, substituteList, bareList, hhead hn.1, ih hn.2]

/-- Where no occurrence is left, a pass is a substitution. -/
lemma bare_unflex {t r : YType} (h : unflex t u n = some r) (hn : n ∉ r.flexes) :
    r.bare = (substitute (single n u) t).bare := by
  revert hn
  have hplaced (flex : YType) (q : Qualifiers) :
      (u.setQualifiers q).bare = (placed (single n u) n flex).bare := by
    rw [placed, single_self, bare_setQualifiers, bare_setQualifiers]
  refine unflex_induct (motive := fun t r => n ∉ r.flexes → r.bare = (substitute (single n u) t).bare)
    ?base ?flexT ?otherFlexT ?nFlexT ?otherNFlexT ?variableT ?listT ?blockT ?key ?value ?neither ?tupleT
    ?functionT h
  case base | otherFlexT | otherNFlexT | neither =>
    intros
    exact bare_eq_of_untouched rfl (by assumption)
  case flexT =>
    rintro q hn -
    have hplaced0 := hplaced (flexT q) q
    rw [hn] at hplaced0 ⊢
    exact hplaced0
  case nFlexT => exact fun q _ => hplaced (nFlexT n q) q
  case variableT | listT | blockT =>
    intro t t' q ih hn
    rw [bare, substitute, bare, ih hn]
  case key =>
    intro k k' v q _ _ ih hn
    rw [flexes, List.mem_append, not_or] at hn
    rw [bare, substitute, bare, ih hn.1, ← bare_eq_of_untouched rfl hn.2]
  case value =>
    intro k v v' q _ _ _ ih hn
    rw [flexes, List.mem_append, not_or] at hn
    rw [bare, substitute, bare, ih hn.2, ← bare_eq_of_untouched rfl hn.1]
  case tupleT =>
    intro types types' q ih hn
    rw [bare, substitute, bare, bareList_eq_of_forall₂ ih hn]
  case functionT =>
    intro r r' types types' q ihr ih hn
    rw [flexes, List.mem_append, not_or] at hn
    rw [bare, substitute, bare, ihr hn.1, bareList_eq_of_forall₂ ih hn.2]

end Unflex

/-! ### Types that can be copied -/

mutual

/-- A tuple is built from its first type, so no tuple is empty. -/
def constructed : YType → Bool
  | base _ _ => true
  | flexT _ => true
  | nFlexT _ _ => true
  | variableT t _ => constructed t
  | listT t _ => constructed t
  | mapT k v _ => constructed k && constructed v
  | blockT t _ => constructed t
  | tupleT types _ => !types.isEmpty && constructedList types
  | functionT r arguments _ => constructed r && constructedList arguments

def constructedList : List YType → Bool
  | [] => true
  | t :: types => constructed t && constructedList types

end

lemma constructedList_iff {types : List YType} :
    constructedList types = true ↔ ∀ t ∈ types, t.constructed = true := by
  induction types with
  | nil => simp [constructedList]
  | cons t types ih => simp [constructedList, ih]

lemma partClosed_constructed : PartClosed fun t => t.constructed = true where
  any := rfl
  variableT _ _ h := h
  listT _ _ h := h
  mapT _ _ _ h := (Bool.and_eq_true _ _).mp h
  blockT _ _ h := h
  tupleT _ _ h := constructedList_iff.mp ((Bool.and_eq_true _ _).mp h).2
  functionT _ _ _ h := constructedList_iff.mp ((Bool.and_eq_true _ _).mp h).2

@[simp] lemma constructed_setQualifiers (q : Qualifiers) (t : YType) :
    (t.setQualifiers q).constructed = t.constructed := by
  cases t <;> simp [setQualifiers, constructed]

lemma isSome_clone {t : YType} (ht : t.constructed = true) : t.clone.isSome = true := by
  cases t with
  | tupleT types q =>
    cases types with
    | nil => cases ht
    | cons t types => rfl
  | _ => rfl

section Constructed

variable {u : YType} {n : Nat}

lemma unflexTypes_constructed {types : List YType}
    (h : ∀ t ∈ types, ∃ r, unflex t u n = some r ∧ r.constructed = true) :
    ∃ types', unflexTypes types u n = some types' ∧ types'.isEmpty = types.isEmpty ∧
      constructedList types' = true := by
  induction types with
  | nil => exact ⟨[], rfl, rfl, rfl⟩
  | cons t types ih =>
    obtain ⟨r, hr, hconstructed⟩ := h t List.mem_cons_self
    obtain ⟨types', htypes', _, hconstructed'⟩ := ih fun t' ht' => h t' (List.mem_cons_of_mem t ht')
    refine ⟨r :: types', ?_, rfl, ?_⟩
    · rw [unflexTypes, hr, htypes']
      rfl
    · rw [constructedList, hconstructed, hconstructed']
      rfl

/-- `unflex` comes back, with a type that can be copied again. -/
lemma unflex_constructed (hu : u.constructed = true) {t : YType} (ht : t.constructed = true) :
    ∃ r, unflex t u n = some r ∧ r.constructed = true := by
  have hplaced (q : Qualifiers) : ∃ r, inPlaceOf q u = some r ∧ r.constructed = true := by
    refine ⟨u.setQualifiers q, ?_, ?_⟩
    · rw [inPlaceOf_eq, if_pos (isSome_clone hu)]
    · rw [constructed_setQualifiers, hu]
  induction t using YType.induct with
  | base k q => exact ⟨_, rfl, rfl⟩
  | flexT q =>
    rw [unflex]
    split
    · exact hplaced q
    · exact ⟨_, rfl, rfl⟩
  | nFlexT m q =>
    rw [unflex]
    split
    · exact hplaced q
    · exact ⟨_, rfl, rfl⟩
  | variableT t q ih =>
    obtain ⟨r, hr, hconstructed⟩ := ih ht
    exact ⟨variableT r unqualified, by rw [unflex, hr, Option.map_some], hconstructed⟩
  | listT t q ih =>
    obtain ⟨r, hr, hconstructed⟩ := ih ht
    exact ⟨listT r unqualified, by rw [unflex, hr, Option.map_some], hconstructed⟩
  | mapT k v q ihk ihv =>
    obtain ⟨hk, hv⟩ := (Bool.and_eq_true _ _).mp ht
    rw [unflex]
    split
    · obtain ⟨r, hr, hconstructed⟩ := ihk hk
      refine ⟨mapT r v unqualified, by rw [hr, Option.map_some], ?_⟩
      rw [constructed, hconstructed, hv, Bool.and_self]
    split
    · obtain ⟨r, hr, hconstructed⟩ := ihv hv
      refine ⟨mapT k r unqualified, by rw [hr, Option.map_some], ?_⟩
      rw [constructed, hk, hconstructed, Bool.and_self]
    · exact ⟨mapT k v unqualified, rfl, ht⟩
  | blockT t q ih =>
    obtain ⟨r, hr, hconstructed⟩ := ih ht
    exact ⟨blockT r unqualified, by rw [unflex, hr, Option.map_some], hconstructed⟩
  | tupleT types q ih =>
    rw [constructed, Bool.and_eq_true, Bool.not_eq_true', constructedList_iff] at ht
    obtain ⟨types', htypes', hempty, hconstructed⟩ :=
      unflexTypes_constructed fun t hmem => ih t hmem (ht.2 t hmem)
    refine ⟨tupleT types' unqualified, ?_, ?_⟩
    · rw [unflex, ht.1, if_neg Bool.false_ne_true, htypes', Option.map_some]
    · rw [constructed, hempty, ht.1, hconstructed]
      rfl
  | functionT r arguments q ihr ih =>
    rw [constructed, Bool.and_eq_true, constructedList_iff] at ht
    obtain ⟨r', hr', hconstructed'⟩ := ihr ht.1
    obtain ⟨types', htypes', _, hconstructed⟩ :=
      unflexTypes_constructed fun t hmem => ih t hmem (ht.2 t hmem)
    refine ⟨functionT r' types' unqualified, ?_, ?_⟩
    · rw [unflex, hr', htypes']
      rfl
    · rw [constructed, hconstructed', hconstructed]
      rfl

end Constructed

/-! ### One substitution after another -/

section Composition

variable {ρ σ : Nat → Option YType}

lemma substitute_placed (hρ : ∀ m u, ρ m = some u → u.flexes = []) {flex : YType} {m : Nat}
    (hflex : substitute σ flex = placed σ m flex) :
    substitute σ (placed ρ m flex) = placed (fun m => (ρ m).or (σ m)) m flex := by
  cases hm : ρ m with
  | none =>
    simp only [placed, hm, Option.none_or]
    exact hflex
  | some u =>
    simp only [placed, hm, Option.some_or]
    refine substitute_eq_self fun m' hm' => ?_
    rw [flexes_setQualifiers, hρ m u hm] at hm'
    cases hm'

/-- What the first substitution puts in holds no flexes. -/
lemma substitute_substitute (hρ : ∀ m u, ρ m = some u → u.flexes = []) (t : YType) :
    substitute σ (substitute ρ t) = substitute (fun m => (ρ m).or (σ m)) t := by
  induction t using YType.induct with
  | base k q =>
    by_cases hk : k = .flexT
    · rw [substitute, if_pos hk, substitute, if_pos hk]
      refine substitute_placed hρ ?_
      rw [substitute, if_pos hk]
    · rw [substitute, if_neg hk, substitute, if_neg hk, substitute, if_neg hk]
  | flexT q => exact substitute_placed hρ rfl
  | nFlexT n q => exact substitute_placed hρ rfl
  | variableT t q ih => rw [substitute, substitute, substitute, ih]
  | listT t q ih => rw [substitute, substitute, substitute, ih]
  | mapT k v q ihk ihv => rw [substitute, substitute, substitute, ihk, ihv]
  | blockT t q ih => rw [substitute, substitute, substitute, ih]
  | tupleT types q ih =>
    simp only [substitute, substituteList_eq_map, List.map_map]
    exact congrArg (tupleT · q) (List.map_congr_left ih)
  | functionT r arguments q ihr ih =>
    simp only [substitute, substituteList_eq_map, List.map_map, ihr]
    exact congrArg (functionT _ · q) (List.map_congr_left ih)

lemma single_flexes {n : Nat} {u : YType} (hu : u.flexes = []) (m : Nat) (v : YType)
    (h : single n u m = some v) : v.flexes = [] := by
  rw [single] at h
  split at h
  · exact Option.some.inj h ▸ hu
  · cases h

end Composition

end YastCore.YType
