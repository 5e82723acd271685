import YastCore.Type.Match
import YastCore.Type.Value

/-!
# Values that a match takes along

A value that a type accepts is also accepted by a type that it matches, unless the match stands for a
conversion: between numbers, from a string to a `locale`, from an untyped list or map to a typed one.
-/

namespace YastCore.YType

open YCPValue

/-- The value is accepted by `matchvalue`. -/
def Takes (t : YType) (v : YCPValue) : Prop := 0 ≤ t.matchvalue v

instance (t : YType) (v : YCPValue) : Decidable (t.Takes v) := inferInstanceAs (Decidable (0 ≤ t.matchvalue v))

/-- Elements of such a type are not looked at. -/
def unchecked (t : YType) : Bool := t.isAny || t.isUnspec

/-- Types of values that a conversion would be for. -/
def isConversion (t expected : YType) : Bool :=
  t.isInteger && expected.isFloat || t.isFloat && expected.isInteger || t.isString && expected.isLocale

/-- No conversion at any depth. -/
def matchesExactly (t expected : YType) : Bool :=
  if expected.isFree then expected.isAny
  else
    match t, expected with
    | listT type _, listT etype _ => etype.unchecked || !type.isUnspec && type.matchesExactly etype
    | mapT keytype valuetype _, mapT ekey evalue _ =>
      evalue.unchecked ||
        !keytype.isUnspec && !valuetype.isUnspec && keytype.matchesExactly ekey && valuetype.matchesExactly evalue
    | _, _ => !t.isConversion expected

variable {t expected : YType} {v : YCPValue} {m : Int}

/-! ### What is accepted -/

lemma not_takes_null (t : YType) : ¬ t.Takes null := by
  have hnull : t.matchvalue null = -1 := by cases t <;> rfl
  rw [Takes, hnull]
  omega

lemma isNull_of_takes (h : t.Takes v) : v.isNull = false := by
  cases v with
  | null => exact absurd h (not_takes_null t)
  | _ => rfl

lemma takes_of_isVoid (h : v.isVoid = true) : t.Takes v := by
  cases v with
  | void =>
    have hvoid := matchvalue_void t
    unfold Takes
    omega
  | ret => cases t <;> simp [Takes, matchvalue, YCPValue.isNull]
  | _ => cases h

lemma takes_of_isAny (ht : t.isAny = true) (hv : v.isNull = false) : t.Takes v := by
  unfold Takes matchvalue
  rw [hv, ht]
  exact Int.le_refl 0

lemma takes_list_iff {q : Qualifiers} {l : List YCPValue} :
    (listT t q).Takes (.list l) ↔ t.unchecked = true ∨ ∀ e ∈ l, t.Takes e := by
  have hstep : (listT t q).matchvalue (.list l) =
      if t.isAny || t.isUnspec then 0
      else if l.all fun e => 0 ≤ t.matchvalue e then 0 else -1 := rfl
  rw [Takes, hstep, unchecked]
  by_cases hfree : (t.isAny || t.isUnspec) = true
  · simp [hfree]
  · rw [if_neg hfree, nonneg_ite_iff]
    simp [hfree, Takes]

lemma takes_map_iff {k : YType} {q : Qualifiers} {entries : List (YCPValue × YCPValue)} :
    (mapT k t q).Takes (.map entries) ↔
      t.unchecked = true ∨ ∀ e ∈ entries, k.Takes e.1 ∧ t.Takes e.2 := by
  have hstep : (mapT k t q).matchvalue (.map entries) =
      if t.isAny || t.isUnspec then 0
      else if entries.all fun e => 0 ≤ k.matchvalue e.1 && 0 ≤ t.matchvalue e.2 then 0 else -1 := rfl
  rw [Takes, hstep, unchecked]
  by_cases hfree : (t.isAny || t.isUnspec) = true
  · simp [hfree]
  · rw [if_neg hfree, nonneg_ite_iff]
    simp [hfree, Takes]

/-- A list is accepted by `any` and by list types. -/
lemma takes_list_cases {l : List YCPValue} (h : t.Takes (.list l)) :
    t.isAny = true ∨ ∃ s q, t = listT s q := by
  by_cases ha : t.isAny = true
  · exact .inl ha
  · cases t with
    | listT s q => exact .inr ⟨s, q, rfl⟩
    | _ =>
      revert h
      simp [Takes, matchvalue, YCPValue.isNull, ha]

lemma takes_map_cases {entries : List (YCPValue × YCPValue)} (h : t.Takes (.map entries)) :
    t.isAny = true ∨ ∃ k s q, t = mapT k s q := by
  by_cases ha : t.isAny = true
  · exact .inl ha
  · cases t with
    | mapT k s q => exact .inr ⟨k, s, q, rfl⟩
    | _ =>
      revert h
      simp [Takes, matchvalue, YCPValue.isNull, ha]

lemma takes_term_cases {name : Text} {l : List YCPValue} (h : t.Takes (.term name l)) :
    t.isAny = true ∨ t.isTerm = true := by
  by_cases ha : t.isAny = true
  · exact .inl ha
  · by_cases ht : t.isTerm = true
    · exact .inr ht
    · revert h
      simp [Takes, matchvalue, YCPValue.isNull, ha, ht]

lemma takes_term {name : Text} {l : List YCPValue} (ht : t.isTerm = true) : t.Takes (.term name l) := by
  unfold Takes matchvalue
  simp [YCPValue.isNull, ht]

lemma takes_listT_cases {q : Qualifiers} (h : (listT t q).Takes v) :
    v.isVoid = true ∨ ∃ l, v = .list l := by
  cases v with
  | null => exact absurd h (not_takes_null _)
  | void | ret => exact .inl rfl
  | list l => exact .inr ⟨l, rfl⟩
  | _ =>
    revert h
    simp [Takes, matchvalue, YCPValue.isNull, isAny, isKind, isBoolean, isInteger, isString, isByteblock,
      isPath, isSymbol, isTerm]

lemma takes_mapT_cases {k : YType} {q : Qualifiers} (h : (mapT k t q).Takes v) :
    v.isVoid = true ∨ ∃ entries, v = .map entries := by
  cases v with
  | null => exact absurd h (not_takes_null _)
  | void | ret => exact .inl rfl
  | map entries => exact .inr ⟨entries, rfl⟩
  | _ =>
    revert h
    simp [Takes, matchvalue, YCPValue.isNull, isAny, isKind, isBoolean, isInteger, isString, isByteblock,
      isPath, isSymbol, isTerm]

/-- The values of constructed types other than lists and maps are nil. -/
lemma isVoid_of_takes (h : t.Takes v) (hbase : t.isBasetype = false) (hlist : ∀ s q, t ≠ listT s q)
    (hmap : ∀ k s q, t ≠ mapT k s q) : v.isVoid = true := by
  have ha : t.isAny = false := by
    cases t with
    | base k q => cases hbase
    | _ => rfl
  cases v with
  | null => exact absurd h (not_takes_null t)
  | void | ret => rfl
  | list l =>
    rcases takes_list_cases h with hany | ⟨s, q, rfl⟩
    · rw [ha] at hany
      cases hany
    · exact absurd rfl (hlist s q)
  | map entries =>
    rcases takes_map_cases h with hany | ⟨k, s, q, rfl⟩
    · rw [ha] at hany
      cases hany
    · exact absurd rfl (hmap k s q)
  | _ =>
    revert h
    cases t <;> simp [Takes, matchvalue, YCPValue.isNull, isAny, isKind, isBoolean, isInteger, isString,
      isByteblock, isPath, isSymbol, isTerm, isBasetype] at hbase ⊢

/-! ### A match without conversions -/

lemma isFree_of_basematch (h : basematch t expected = 1) : expected.isFree = true := by
  unfold basematch at h
  split at h
  · cases h
  split at h
  · cases h
  split at h
  · assumption
  split at h
  · cases h
  split at h
  · cases h
  · cases h

/-- The parts of a constructed type match, or nothing is expected. -/
lemma constructedMatch_nonneg {parts : Option Bool} (h : constructedMatch t expected parts = some m)
    (hm : 0 ≤ m) : expected.isFree = true ∨ parts = some true := by
  unfold constructedMatch at h
  split at h
  next hfree => exact .inl (isFree_of_basematch hfree)
  split at h
  next =>
    right
    obtain ⟨b, rfl, hb⟩ := Option.map_eq_some_iff.mp h
    cases b with
    | true => rfl
    | false =>
      subst hb
      cases hm
  next =>
    rw [Option.some.injEq] at h
    subst h
    cases hm

/-- What a plain type that matches stands for: nothing is expected, it is the kind itself, a value that
is nil anyway, or a conversion. -/
lemma plainMatch_nonneg {kind : BaseKind} {q : Qualifiers} (h : 0 ≤ plainMatch kind q expected) :
    expected.isFree = true ∨ expected.isKind kind = true ∨ kind = .unspecT ∨ kind = .voidT ∨
      kind = .localeT ∨ (base kind q).isConversion expected = true := by
  unfold plainMatch at h
  split at h
  · omega
  split at h
  next hfree => exact .inl hfree
  split at h
  next hkind => exact .inr (.inl hkind)
  split at h
  · omega
  · simp
  · simp
  · split at h
    next hfloat => simp [isConversion, isInteger, isKind, hfloat]
    · omega
  · split at h
    next hinteger => simp [isConversion, isFloat, isKind, hinteger]
    · omega
  · simp
  · split at h
    next hlocale => simp [isConversion, isString, isKind, hlocale]
    · omega
  · omega

/-- The values of these kinds are nil. -/
lemma isVoid_of_takes_kind {kind : BaseKind} {q : Qualifiers}
    (hkind : kind = .unspecT ∨ kind = .voidT ∨ kind = .localeT) (h : (base kind q).Takes v) :
    v.isVoid = true := by
  cases v with
  | null => exact absurd h (not_takes_null _)
  | void | ret => rfl
  | _ =>
    revert h
    rcases hkind with rfl | rfl | rfl <;> simp [Takes, matchvalue, YCPValue.isNull, isAny, isKind,
      isBoolean, isInteger, isString, isByteblock, isPath, isSymbol, isTerm]

lemma takes_of_isKind {kind : BaseKind} {q : Qualifiers} (h : expected.isKind kind = true)
    (hv : (base kind q).Takes v) : expected.Takes v := by
  cases expected with
  | base k q' =>
    rw [isKind, beq_iff_eq] at h
    subst h
    cases v <;> exact hv
  | _ => cases h

/-- Where anything is expected there is nothing to be accepted by but `any`. -/
lemma isAny_of_matchesExactly (h : t.matchesExactly expected = true) (hfree : expected.isFree = true) :
    expected.isAny = true := by
  unfold matchesExactly at h
  rwa [if_pos hfree] at h

lemma takes_of_isFree (h : t.matchesExactly expected = true) (hfree : expected.isFree = true)
    (hv : t.Takes v) : expected.Takes v :=
  takes_of_isAny (isAny_of_matchesExactly h hfree) (isNull_of_takes hv)

lemma takes_of_plainMatch {kind : BaseKind} {q : Qualifiers} (h : 0 ≤ plainMatch kind q expected)
    (hexact : (base kind q).matchesExactly expected = true) (hv : (base kind q).Takes v) :
    expected.Takes v := by
  by_cases hfree : expected.isFree = true
  · exact takes_of_isFree hexact hfree hv
  rcases plainMatch_nonneg h with hfree' | hkind | hkind | hkind | hkind | hconversion
  · exact absurd hfree' hfree
  · exact takes_of_isKind hkind hv
  · exact takes_of_isVoid (isVoid_of_takes_kind (.inl hkind) hv)
  · exact takes_of_isVoid (isVoid_of_takes_kind (.inr (.inl hkind)) hv)
  · exact takes_of_isVoid (isVoid_of_takes_kind (.inr (.inr hkind)) hv)
  · unfold matchesExactly at hexact
    rw [if_neg hfree] at hexact
    simp [hconversion] at hexact

/-- A type that is matched by `any` or without a look is no type that elements are checked against. -/
lemma unchecked_of_match (h : matchType t expected = some m) (hm : 0 ≤ m)
    (hexact : t.matchesExactly expected = true) (hany : t.isAny = true) : expected.unchecked = true := by
  cases t with
  | base kind q =>
    rw [isAny, isKind, beq_iff_eq] at hany
    subst hany
    rw [matchType, Option.some.injEq] at h
    subst h
    rcases plainMatch_nonneg hm with hfree | hkind | hkind | hkind | hkind | hconversion
    · rw [unchecked, isAny_of_matchesExactly hexact hfree]
      rfl
    · rw [unchecked, isAny, hkind]
      rfl
    · cases hkind
    · cases hkind
    · cases hkind
    · cases hconversion
  | _ => cases hany

/-- The element type of a list that is not looked at is matched by no type that is. -/
lemma matchesExactly_listT {type etype : YType} {q q' : Qualifiers}
    (h : (listT type q).matchesExactly (listT etype q') = true) (hchecked : etype.unchecked = false) :
    type.isUnspec = false ∧ type.matchesExactly etype = true := by
  rw [matchesExactly, if_neg (by simp [isFree, isAny, isFlex, isWildcard, isUnspec, isKind])] at h
  simpa [hchecked] using h

lemma matchesExactly_mapT {keytype valuetype ekey evalue : YType} {q q' : Qualifiers}
    (h : (mapT keytype valuetype q).matchesExactly (mapT ekey evalue q') = true)
    (hchecked : evalue.unchecked = false) :
    keytype.isUnspec = false ∧ valuetype.isUnspec = false ∧ keytype.matchesExactly ekey = true ∧
      valuetype.matchesExactly evalue = true := by
  rw [matchesExactly, if_neg (by simp [isFree, isAny, isFlex, isWildcard, isUnspec, isKind])] at h
  simpa [hchecked, and_assoc] using h

/-- The element types match, and nothing in between is a conversion. -/
lemma takes_list_of_match {type etype : YType} {q q' : Qualifiers} {l : List YCPValue}
    (hparts : (if etype.isUnspec || type.isUnspec then some true
      else (matchType type etype).map fun m => decide (0 ≤ m)) = some true)
    (hexact : (listT type q).matchesExactly (listT etype q') = true) (hv : (listT type q).Takes (.list l))
    (ih : ∀ {m : Int} {v : YCPValue}, matchType type etype = some m → 0 ≤ m →
      type.matchesExactly etype = true → type.Takes v → etype.Takes v) :
    (listT etype q').Takes (.list l) := by
  rw [takes_list_iff] at hv ⊢
  by_cases hchecked : etype.unchecked = true
  · exact .inl hchecked
  rw [Bool.not_eq_true] at hchecked
  obtain ⟨hunspec, hexact'⟩ := matchesExactly_listT hexact hchecked
  have heunspec : etype.isUnspec = false := (Bool.or_eq_false_iff.mp hchecked).2
  rw [heunspec, hunspec, Bool.or_false, if_neg Bool.false_ne_true, Option.map_eq_some_iff] at hparts
  obtain ⟨m, hmatch, hm⟩ := hparts
  have hm : 0 ≤ m := of_decide_eq_true hm
  rcases hv with hfree | hall
  · rw [unchecked, hunspec, Bool.or_false] at hfree
    exact .inl (unchecked_of_match hmatch hm hexact' hfree)
  · exact .inr fun e he => ih hmatch hm hexact' (hall e he)

/-- The key types and the value types match, and nothing in between is a conversion. -/
lemma takes_map_of_match {keytype valuetype ekey evalue : YType} {q q' : Qualifiers}
    {entries : List (YCPValue × YCPValue)}
    (hparts : keytype.isUnspec = false → valuetype.isUnspec = false →
      (((matchType keytype ekey).map fun m => decide (0 ≤ m)).bind fun key =>
        if !key then some false else (matchType valuetype evalue).map fun m => decide (0 ≤ m)) = some true)
    (hexact : (mapT keytype valuetype q).matchesExactly (mapT ekey evalue q') = true)
    (hv : (mapT keytype valuetype q).Takes (.map entries))
    (ihkey : ∀ {m : Int} {v : YCPValue}, matchType keytype ekey = some m → 0 ≤ m →
      keytype.matchesExactly ekey = true → keytype.Takes v → ekey.Takes v)
    (ihvalue : ∀ {m : Int} {v : YCPValue}, matchType valuetype evalue = some m → 0 ≤ m →
      valuetype.matchesExactly evalue = true → valuetype.Takes v → evalue.Takes v) :
    (mapT ekey evalue q').Takes (.map entries) := by
  rw [takes_map_iff] at hv ⊢
  by_cases hchecked : evalue.unchecked = true
  · exact .inl hchecked
  rw [Bool.not_eq_true] at hchecked
  obtain ⟨hkunspec, hvunspec, hkexact, hvexact⟩ := matchesExactly_mapT hexact hchecked
  obtain ⟨key, hkey, hrest⟩ := Option.bind_eq_some_iff.mp (hparts hkunspec hvunspec)
  obtain ⟨mk, hkmatch, rfl⟩ := Option.map_eq_some_iff.mp hkey
  by_cases hmk : 0 ≤ mk
  · rw [decide_eq_true hmk, if_neg (by decide), Option.map_eq_some_iff] at hrest
    obtain ⟨mv, hvmatch, hmv⟩ := hrest
    have hmv : 0 ≤ mv := of_decide_eq_true hmv
    rcases hv with hfree | hall
    · rw [unchecked, hvunspec, Bool.or_false] at hfree
      exact .inl (unchecked_of_match hvmatch hmv hvexact hfree)
    · exact .inr fun e he =>
        ⟨ihkey hkmatch hmk hkexact (hall e he).1, ihvalue hvmatch hmv hvexact (hall e he).2⟩
  · rw [decide_eq_false hmk, if_pos (by decide)] at hrest
    cases hrest

/-- A match without conversions takes the values along. -/
lemma takes_of_match (h : matchType t expected = some m) (hm : 0 ≤ m)
    (hexact : t.matchesExactly expected = true) (hv : t.Takes v) : expected.Takes v := by
  induction t using YType.induct generalizing expected m v with
  | base kind q =>
    rw [matchType, Option.some.injEq] at h
    subst h
    exact takes_of_plainMatch hm hexact hv
  | listT type q ih =>
    rw [matchType.eq_def] at h
    rcases constructedMatch_nonneg h hm with hfree | hparts
    · exact takes_of_isFree hexact hfree hv
    cases expected with
    | listT etype q' =>
      rcases takes_listT_cases hv with hvoid | ⟨l, rfl⟩
      · exact takes_of_isVoid hvoid
      · exact takes_list_of_match hparts hexact hv ih
    | _ => cases hparts
  | mapT keytype valuetype q ihkey ihvalue =>
    rw [matchType.eq_def] at h
    rcases constructedMatch_nonneg h hm with hfree | hparts
    · exact takes_of_isFree hexact hfree hv
    cases expected with
    | mapT ekey evalue q' =>
      rcases takes_mapT_cases hv with hvoid | ⟨entries, rfl⟩
      · exact takes_of_isVoid hvoid
      · refine takes_map_of_match (fun hk hv => ?_) hexact hv ihkey ihvalue
        dsimp only at hparts
        rwa [hk, hv, if_neg Bool.false_ne_true, if_neg Bool.false_ne_true] at hparts
    | _ => cases hparts
  | _ => exact takes_of_isVoid (isVoid_of_takes hv rfl (by simp) (by simp))

/-! ### The results of a match -/

/-- Constructed types match in full or not at all. -/
lemma constructedMatch_cases {parts : Option Bool} (h : constructedMatch t expected parts = some m) :
    m = 0 ∨ m = -1 := by
  unfold constructedMatch at h
  split at h
  · exact .inl (Option.some.inj h).symm
  split at h
  · obtain ⟨b, -, rfl⟩ := Option.map_eq_some_iff.mp h
    cases b <;> decide
  · exact .inr (Option.some.inj h).symm

lemma neg_one_le_plainMatch (kind : BaseKind) (q : Qualifiers) (expected : YType) :
    -1 ≤ plainMatch kind q expected := by
  unfold plainMatch
  grind

/-- No match is less than a refusal. -/
lemma neg_one_le_matchType (h : t.matchType expected = some m) : -1 ≤ m := by
  cases t with
  | base kind q =>
    rw [matchType, Option.some.injEq] at h
    rw [← h]
    exact neg_one_le_plainMatch kind q expected
  | flexT q | nFlexT n q =>
    rw [matchType, Option.some.injEq] at h
    split at h <;> omega
  | _ =>
    rw [matchType.eq_def] at h
    have hm := constructedMatch_cases h
    omega

lemma isConversion_of_plainMatch {kind : BaseKind} {q : Qualifiers}
    (h : 0 < plainMatch kind q expected) :
    expected.isFree = false ∧ (base kind q).isConversion expected = true := by
  unfold plainMatch at h
  split at h
  · omega
  split at h
  · omega
  next hfree =>
  split at h
  · omega
  rw [Bool.not_eq_true] at hfree
  refine ⟨hfree, ?_⟩
  cases kind with
  | integerT =>
    dsimp only at h
    split at h
    next hfloat => simp [isConversion, isInteger, isKind, hfloat]
    next => omega
  | floatT =>
    dsimp only at h
    split at h
    next hinteger => simp [isConversion, isFloat, isKind, hinteger]
    next => omega
  | localeT | stringT =>
    dsimp only at h
    split at h <;> omega
  | _ => simp at h

/-- A conversion at the outermost level is no exact match. -/
lemma not_matchesExactly_of_pos (h : t.matchType expected = some m) (hm : 0 < m) :
    t.matchesExactly expected = false := by
  cases t with
  | base kind q =>
    rw [matchType, Option.some.injEq] at h
    subst h
    obtain ⟨hfree, hconversion⟩ := isConversion_of_plainMatch hm
    unfold matchesExactly
    rw [hfree, if_neg Bool.false_ne_true]
    simp [hconversion]
  | flexT q | nFlexT n q =>
    rw [matchType, Option.some.injEq] at h
    split at h <;> omega
  | _ =>
    rw [matchType.eq_def] at h
    have hm' := constructedMatch_cases h
    omega

end YastCore.YType
