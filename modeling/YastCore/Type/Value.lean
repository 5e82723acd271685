import YastCore.Type.Basic
import YastCore.Value.Order

/-!
# Types of values

`Type::matchvalue` decides `is`, `YEPropagate::canPropagate` decides whether a cast succeeds. They
differ on strings for a `locale` and on the keys of a map whose values are of type `any`.
-/

namespace YastCore.YType

/-! ### The two checks -/

/-- Negative when the value is not of the type. -/
def matchvalue (t : YType) (value : YCPValue) : Int :=
  if value.isNull then -1
  else if t.isAny then 0
  else
    match value with
    | .void => 0
    | .boolean _ => if t.isBoolean then 0 else -1
    | .integer _ => if t.isInteger then 0 else -1
    | .string _ => if t.isString then 0 else -1
    | .byteblock _ => if t.isByteblock then 0 else -1
    | .path _ => if t.isPath then 0 else -1
    | .symbol _ => if t.isSymbol then 0 else -1
    | .term _ _ => if t.isTerm then 0 else -1
    | .list l =>
      match t with
      | listT elementType _ =>
        if elementType.isAny || elementType.isUnspec then 0
        else if l.all fun e => 0 ≤ elementType.matchvalue e then 0
        else -1
      | _ => -1
    | .map m =>
      match t with
      | mapT keyType elementType _ =>
        if elementType.isAny || elementType.isUnspec then 0
        else if m.all fun e => 0 ≤ keyType.matchvalue e.1 && 0 ≤ elementType.matchvalue e.2 then 0
        else -1
      | _ => -1
    | .ret => 0
    | _ => -1

/-- `isFunction` tells which code is a function definition. -/
def canPropagate (isFunction : CodePtr → Bool) (value : YCPValue) (toType : YType) : Bool :=
  if value.isNull || value.isVoid || toType.isAny || toType.isUnspec
      || (toType.isBasetype && value.valuetype == toType.valueType) then true
  else
    match toType, value with
    | listT elem _, .list l =>
      if elem.isAny then true
      else if elem.isUnspec then true
      else l.all fun e => canPropagate isFunction e elem
    | mapT key elem _, .map m =>
      if elem.isAny && key.isAny then true
      else if elem.isUnspec && key.isUnspec then true
      else m.all fun e => canPropagate isFunction e.1 key && canPropagate isFunction e.2 elem
    | functionT _ _ _, .code c => isFunction c
    | _, _ => false

/-! ### Types of data -/

/-- Built from the base types, `any`, `list` and `map`. -/
def isDataType : YType → Bool
  | base k _ => k != .unspecT && k != .errorT && k != .wildcardT && k != .flexT && k != .nilT
  | listT t _ => t.isDataType
  | mapT k v _ => k.isDataType && v.isDataType
  | _ => false

/-- Some map key is of the type and is told so by both checks. -/
def takesKeys (t : YType) : Bool := t.isAny || t.isInteger || t.isString || t.isSymbol

/-- No `locale` where a string can stand, and `any` for the keys of each map with values of type
`any`. What stands below a key type that no key has does not count. -/
def checksAgree : YType → Bool
  | base k _ => k != .localeT
  | listT t _ => t.checksAgree
  | mapT k v _ =>
    if v.isAny then k.isAny
    else if k.isLocale then false
    else if k.takesKeys then v.checksAgree
    else true
  | _ => true

@[elab_as_elim]
theorem isDataType_induct {motive : YType → Prop}
    (base : ∀ k q, (base k q).isDataType = true → motive (base k q))
    (list : ∀ t q, t.isDataType = true → motive t → motive (listT t q))
    (map : ∀ k v q, k.isDataType = true → v.isDataType = true → motive k → motive v →
      motive (mapT k v q)) : ∀ t : YType, t.isDataType = true → motive t
  | .base k q, h => base k q h
  | .listT t q, h => list t q h (isDataType_induct base list map t h)
  | .mapT k v q, h => by
    have hkv : k.isDataType = true ∧ v.isDataType = true := by
      simpa only [isDataType, Bool.and_eq_true] using h
    exact map k v q hkv.1 hkv.2 (isDataType_induct base list map k hkv.1)
      (isDataType_induct base list map v hkv.2)

lemma isUnspec_eq_false {t : YType} (h : t.isDataType = true) : t.isUnspec = false := by
  cases t with
  | base k q => cases k <;> first | rfl | simp [isDataType] at h
  | _ => rfl

/-! ### What each check says of a list and of a map -/

lemma matchvalue_void (t : YType) : t.matchvalue .void = 0 := by
  cases t <;> simp [matchvalue, YCPValue.isNull]

lemma nonneg_ite_iff {p : Prop} [Decidable p] : (0 : Int) ≤ (if p then 0 else -1) ↔ p := by
  split <;> simp_all

lemma matchvalue_list {t : YType} (ht : t.isDataType = true) (q : Qualifiers) (l : List YCPValue) :
    0 ≤ (listT t q).matchvalue (.list l) ↔ t.isAny = true ∨ ∀ e ∈ l, 0 ≤ t.matchvalue e := by
  have hstep : (listT t q).matchvalue (.list l) =
      if t.isAny || t.isUnspec then 0
      else if l.all fun e => 0 ≤ t.matchvalue e then 0 else -1 := rfl
  rw [hstep, isUnspec_eq_false ht, Bool.or_false]
  by_cases ha : t.isAny = true
  · simp [ha]
  · rw [if_neg ha, nonneg_ite_iff]
    simp [ha]

lemma matchvalue_map {k v : YType} (hv : v.isDataType = true) (q : Qualifiers)
    (m : List (YCPValue × YCPValue)) :
    0 ≤ (mapT k v q).matchvalue (.map m) ↔
      v.isAny = true ∨ ∀ e ∈ m, 0 ≤ k.matchvalue e.1 ∧ 0 ≤ v.matchvalue e.2 := by
  have hstep : (mapT k v q).matchvalue (.map m) =
      if v.isAny || v.isUnspec then 0
      else if m.all fun e => 0 ≤ k.matchvalue e.1 && 0 ≤ v.matchvalue e.2 then 0 else -1 := rfl
  rw [hstep, isUnspec_eq_false hv, Bool.or_false]
  by_cases ha : v.isAny = true
  · simp [ha]
  · rw [if_neg ha, nonneg_ite_iff]
    simp [ha]

section Cast

variable (isFunction : CodePtr → Bool)

lemma canPropagate_void (t : YType) : canPropagate isFunction .void t = true := by
  unfold canPropagate
  simp [YCPValue.isVoid]

lemma canPropagate_list {t : YType} (ht : t.isDataType = true) (q : Qualifiers) (l : List YCPValue) :
    canPropagate isFunction (.list l) (listT t q) = true ↔
      t.isAny = true ∨ ∀ e ∈ l, canPropagate isFunction e t = true := by
  have hstep : canPropagate isFunction (.list l) (listT t q) =
      if t.isAny then true
      else if t.isUnspec then true
      else l.all fun e => canPropagate isFunction e t := rfl
  rw [hstep, isUnspec_eq_false ht]
  by_cases ha : t.isAny = true <;> simp [ha]

lemma canPropagate_map {k v : YType} (hv : v.isDataType = true) (q : Qualifiers)
    (m : List (YCPValue × YCPValue)) :
    canPropagate isFunction (.map m) (mapT k v q) = true ↔
      (v.isAny = true ∧ k.isAny = true) ∨
        ∀ e ∈ m, canPropagate isFunction e.1 k = true ∧ canPropagate isFunction e.2 v = true := by
  have hstep : canPropagate isFunction (.map m) (mapT k v q) =
      if v.isAny && k.isAny then true
      else if v.isUnspec && k.isUnspec then true
      else m.all fun e => canPropagate isFunction e.1 k && canPropagate isFunction e.2 v := rfl
  rw [hstep, isUnspec_eq_false hv]
  by_cases ha : v.isAny = true ∧ k.isAny = true
  · simp [ha]
  · rw [if_neg (by simpa using ha)]
    simp [ha]

/-- The two checks give the same answer. -/
def Agrees (t : YType) (v : YCPValue) : Prop :=
  0 ≤ t.matchvalue v ↔ canPropagate isFunction v t = true

lemma agrees_void (t : YType) : Agrees isFunction t .void := by
  unfold Agrees
  rw [matchvalue_void, canPropagate_void]
  simp

lemma agrees_any (q : Qualifiers) {v : YCPValue} (hv : v.isNull = false) :
    Agrees isFunction (base .anyT q) v := by
  have hm : (base .anyT q).matchvalue v = 0 := by
    unfold matchvalue
    rw [hv]
    rfl
  have hc : canPropagate isFunction v (base .anyT q) = true := by
    unfold canPropagate
    simp [isAny, isKind]
  simp [Agrees, hm, hc]

lemma agrees_base (k : BaseKind) (q : Qualifiers) (hk : (base k q).isDataType = true)
    (hl : k ≠ .localeT) {v : YCPValue} (hv : v.isData = true) : Agrees isFunction (base k q) v := by
  have hnull : v.isNull = false := by
    cases v <;> first | rfl | (simp [YCPValue.isData] at hv; done)
  by_cases ha : k = .anyT
  · rw [ha]
    exact agrees_any isFunction q hnull
  · cases v <;> first
      | (simp [YCPValue.isData] at hv; done)
      | exact agrees_void isFunction _
      | (cases k <;> first
          | exact absurd rfl hl
          | exact absurd rfl ha
          | (simp [isDataType] at hk; done)
          | simp [Agrees, matchvalue, canPropagate, YCPValue.isNull, YCPValue.isVoid,
              YCPValue.valuetype, valueType, baseValueType, isAny, isUnspec, isBasetype, isKind,
              isBoolean, isInteger, isString, isByteblock, isPath, isSymbol, isTerm])

/-- A list type and a map type take nothing but nil and values of their own class. -/
lemma agrees_listT_of_ne (t : YType) (q : Qualifiers) {v : YCPValue} (hv : v.isData = true)
    (hne : ∀ l, v ≠ .list l) : Agrees isFunction (listT t q) v := by
  cases v with
  | void => exact agrees_void isFunction _
  | list l => exact absurd rfl (hne l)
  | _ =>
    first
    | (simp [YCPValue.isData] at hv; done)
    | simp [Agrees, matchvalue, canPropagate, YCPValue.isNull, YCPValue.isVoid, isAny, isUnspec,
        isBasetype, isKind, isBoolean, isInteger, isString, isByteblock, isPath, isSymbol, isTerm]

lemma agrees_mapT_of_ne (k t : YType) (q : Qualifiers) {v : YCPValue} (hv : v.isData = true)
    (hne : ∀ m, v ≠ .map m) : Agrees isFunction (mapT k t q) v := by
  cases v with
  | void => exact agrees_void isFunction _
  | map m => exact absurd rfl (hne m)
  | _ =>
    first
    | (simp [YCPValue.isData] at hv; done)
    | simp [Agrees, matchvalue, canPropagate, YCPValue.isNull, YCPValue.isVoid, isAny, isUnspec,
        isBasetype, isKind, isBoolean, isInteger, isString, isByteblock, isPath, isSymbol, isTerm]

lemma isData_of_isMapKey {v : YCPValue} (h : v.isMapKey = true) : v.isData = true := by
  cases v <;> first | rfl | (simp [YCPValue.isMapKey] at h; done)

lemma agrees_key {t : YType} (ht : t.isDataType = true) (hl : t.isLocale = false) {key : YCPValue}
    (hkey : key.isMapKey = true) : Agrees isFunction t key := by
  have hd : key.isData = true := isData_of_isMapKey hkey
  cases t with
  | base k q =>
    apply agrees_base isFunction k q ht _ hd
    intro hk
    simp [hk, isLocale, isKind] at hl
  | listT t q =>
    apply agrees_listT_of_ne isFunction t q hd
    intro l hkl
    simp [hkl, YCPValue.isMapKey] at hkey
  | mapT k t q =>
    apply agrees_mapT_of_ne isFunction k t q hd
    intro m hkm
    simp [hkm, YCPValue.isMapKey] at hkey
  | _ => simp [isDataType] at ht

/-- A key type that is not for keys takes none of them. -/
lemma matchvalue_key_neg {t : YType} (ht : t.isDataType = true) (hk : t.takesKeys = false)
    {key : YCPValue} (hkey : key.isMapKey = true) : ¬0 ≤ t.matchvalue key := by
  cases key with
  | integer i | string s | symbol s =>
    cases t with
    | base k q =>
      cases k <;> first
        | (simp [isDataType] at ht; done)
        | (simp [takesKeys, isAny, isInteger, isString, isSymbol, isKind] at hk; done)
        | simp [matchvalue, YCPValue.isNull, isAny, isInteger, isString, isSymbol, isKind]
    | listT t q => simp [matchvalue, YCPValue.isNull, isAny, isInteger, isString, isSymbol, isKind]
    | mapT k t q => simp [matchvalue, YCPValue.isNull, isAny, isInteger, isString, isSymbol, isKind]
    | _ => simp [isDataType] at ht
  | _ => simp [YCPValue.isMapKey] at hkey

/-- The entries of a map, one by one, when both checks look at them. -/
lemma agrees_mapT {k v : YType} (hk : k.isDataType = true) (hv : v.isDataType = true)
    (hany : v.isAny = false) (hlocale : k.isLocale = false) (q : Qualifiers)
    {m : List (YCPValue × YCPValue)} (hm : (YCPValue.map m).isData = true)
    (hvalues : k.takesKeys = true → ∀ w, w.isData = true → Agrees isFunction v w) :
    Agrees isFunction (mapT k v q) (.map m) := by
  have hentries := YCPValue.isDataMap_iff.mp (by simpa only [YCPValue.isData] using hm)
  unfold Agrees
  rw [matchvalue_map hv, canPropagate_map isFunction hv, hany]
  simp only [Bool.false_eq_true, false_and, false_or]
  have hkeys : ∀ e ∈ m, Agrees isFunction k e.1 :=
    fun e he => agrees_key isFunction hk hlocale (hentries e he).1
  by_cases htakes : k.takesKeys = true
  · have hiff : ∀ e ∈ m, (0 ≤ k.matchvalue e.1 ∧ 0 ≤ v.matchvalue e.2 ↔
        canPropagate isFunction e.1 k = true ∧ canPropagate isFunction e.2 v = true) := by
      intro e he
      exact and_congr (hkeys e he) (hvalues htakes e.2 (hentries e he).2.2)
    exact forall₂_congr hiff
  · have hno : ∀ e ∈ m, ¬0 ≤ k.matchvalue e.1 := fun e he =>
      matchvalue_key_neg hk (by simpa using htakes) (hentries e he).1
    constructor
    · intro hall e he
      exact absurd (hall e he).1 (hno e he)
    · intro hall e he
      exact absurd ((hkeys e he).mpr (hall e he).1) (hno e he)

theorem agrees_of_checksAgree (t : YType) (ht : t.isDataType = true) :
    t.checksAgree = true → ∀ v : YCPValue, v.isData = true → Agrees isFunction t v := by
  refine isDataType_induct ?base ?list ?map t ht
  case base =>
    intro k q hk hsafe v hv
    exact agrees_base isFunction k q hk (by simpa [checksAgree] using hsafe) hv
  case list =>
    intro t q ht ih hsafe v hv
    by_cases hlist : ∃ l, v = .list l
    · obtain ⟨l, rfl⟩ := hlist
      have helem := YCPValue.isDataList_iff.mp (by simpa only [YCPValue.isData] using hv)
      unfold Agrees
      rw [matchvalue_list ht, canPropagate_list isFunction ht]
      exact or_congr_right (forall₂_congr fun e he => ih hsafe e (helem e he))
    · exact agrees_listT_of_ne isFunction t q hv fun l hl => hlist ⟨l, hl⟩
  case map =>
    intro k v q hk hv _ ih hsafe w hw
    by_cases hmap : ∃ m, w = .map m
    · obtain ⟨m, rfl⟩ := hmap
      unfold checksAgree at hsafe
      by_cases hany : v.isAny = true
      · have hkany : k.isAny = true := by simpa [hany] using hsafe
        unfold Agrees
        rw [matchvalue_map hv, canPropagate_map isFunction hv]
        simp [hany, hkany]
      · by_cases hlocale : k.isLocale = true
        · simp [hany, hlocale] at hsafe
        · apply agrees_mapT isFunction hk hv (by simpa using hany) (by simpa using hlocale) q hw
          intro htakes
          exact ih (by simpa [hany, hlocale, htakes] using hsafe)
    · exact agrees_mapT_of_ne isFunction k v q hw fun m hm => hmap ⟨m, hm⟩

/-! ### Where the checks differ -/

/-- A key that the key type, not being `any`, does not take. -/
lemma exists_key_not_canPropagate {t : YType} (ht : t.isDataType = true) (ha : t.isAny = false) :
    ∃ key : YCPValue, key.isMapKey = true ∧ canPropagate isFunction key t = false := by
  by_cases hi : t.isInteger = true
  · refine ⟨.symbol [], rfl, ?_⟩
    cases t with
    | base k q => cases k <;> first | rfl | (simp [isInteger, isKind] at hi; done)
    | _ => simp [isInteger, isKind] at hi
  · refine ⟨.integer 0, rfl, ?_⟩
    cases t with
    | base k q => cases k <;> first | rfl | simp_all [isInteger, isAny, isKind, isDataType]
    | listT t q => rfl
    | mapT k v q => rfl
    | _ => simp [isDataType] at ht

lemma exists_key_both {t : YType} (h : t.takesKeys = true) :
    ∃ key : YCPValue, key.isMapKey = true ∧ 0 ≤ t.matchvalue key ∧
      canPropagate isFunction key t = true := by
  cases t with
  | base k q =>
    cases k with
    | anyT | integerT => exact ⟨.integer 0, rfl, Int.le_refl 0, rfl⟩
    | stringT => exact ⟨.string [], rfl, Int.le_refl 0, rfl⟩
    | symbolT => exact ⟨.symbol [], rfl, Int.le_refl 0, rfl⟩
    | _ => simp [takesKeys, isAny, isInteger, isString, isSymbol, isKind] at h
  | _ => simp [takesKeys, isAny, isInteger, isString, isSymbol, isKind] at h

lemma isData_map_singleton {key v : YCPValue} (hkey : key.isMapKey = true) (hv : v.isData = true) :
    (YCPValue.map [(key, v)]).isData = true := by
  simp [YCPValue.isData, YCPValue.isDataMap, hkey, hv, isData_of_isMapKey hkey]

theorem exists_not_agrees (t : YType) (ht : t.isDataType = true) :
    t.checksAgree = false → ∃ v : YCPValue, v.isData = true ∧ ¬Agrees isFunction t v := by
  refine isDataType_induct ?base ?list ?map t ht
  case base =>
    intro k q hk hsafe
    have hkl : k = .localeT := by simpa [checksAgree] using hsafe
    rw [hkl]
    exact ⟨.string [], rfl, by simp [Agrees, matchvalue, canPropagate, YCPValue.isNull, YCPValue.isVoid,
      YCPValue.valuetype, valueType, baseValueType, isAny, isUnspec, isBasetype, isKind, isString]⟩
  case list =>
    intro t q ht ih hsafe
    obtain ⟨v, hv, hdiff⟩ := ih hsafe
    have hany : t.isAny = false := by
      by_contra ha
      cases t with
      | base k q => cases k <;> simp_all [isAny, isKind, checksAgree]
      | _ => simp [isAny, isKind] at ha
    refine ⟨.list [v], by simp [YCPValue.isData, YCPValue.isDataList, hv], ?_⟩
    unfold Agrees
    rw [matchvalue_list ht, canPropagate_list isFunction ht, hany]
    simpa [Agrees] using hdiff
  case map =>
    intro k v q hk hv _ ih hsafe
    unfold checksAgree at hsafe
    by_cases hany : v.isAny = true
    · have hkany : k.isAny = false := by simpa [hany] using hsafe
      obtain ⟨key, hkey, hrejects⟩ := exists_key_not_canPropagate isFunction hk hkany
      refine ⟨.map [(key, .void)], isData_map_singleton hkey rfl, ?_⟩
      unfold Agrees
      rw [matchvalue_map hv, canPropagate_map isFunction hv]
      simp [hany, hkany, hrejects]
    · have hval : ∀ key w : YCPValue, (Agrees isFunction (mapT k v q) (.map [(key, w)]) ↔
          (0 ≤ k.matchvalue key ∧ 0 ≤ v.matchvalue w ↔
            canPropagate isFunction key k = true ∧ canPropagate isFunction w v = true)) := by
        intro key w
        unfold Agrees
        rw [matchvalue_map hv, canPropagate_map isFunction hv]
        simp [hany]
      by_cases hlocale : k.isLocale = true
      · refine ⟨.map [(.string [], .void)], rfl, ?_⟩
        rw [hval, matchvalue_void, canPropagate_void]
        cases k with
        | base k q =>
          have hkl : k = .localeT := by simpa [isLocale, isKind] using hlocale
          rw [hkl]
          simp [matchvalue, canPropagate, YCPValue.isNull, YCPValue.isVoid, YCPValue.valuetype,
            valueType, baseValueType, isAny, isUnspec, isBasetype, isKind, isString]
        | _ => simp [isLocale, isKind] at hlocale
      · have htakes : k.takesKeys = true := by
          by_contra hno
          simp [hany, hlocale, hno] at hsafe
        obtain ⟨w, hw, hdiff⟩ := ih (by simpa [hany, hlocale, htakes] using hsafe)
        obtain ⟨key, hkey, hmatch, hcast⟩ := exists_key_both isFunction htakes
        refine ⟨.map [(key, w)], isData_map_singleton hkey hw, ?_⟩
        rw [hval]
        simpa [hmatch, hcast, Agrees] using hdiff

/-- `is` and the cast accept the same data values exactly for these types. -/
theorem is_iff_cast_iff (t : YType) (ht : t.isDataType = true) :
    (∀ v : YCPValue, v.isData = true →
      (0 ≤ t.matchvalue v ↔ canPropagate isFunction v t = true)) ↔ t.checksAgree = true := by
  constructor
  · intro hall
    by_contra hunsafe
    obtain ⟨v, hv, hdiff⟩ := exists_not_agrees isFunction t ht (by simpa using hunsafe)
    exact hdiff (hall v hv)
  · exact agrees_of_checksAgree isFunction t ht

end Cast

/-- `list <map <string, integer>>` and `map <string, any>`. -/
def listOfMaps : YType :=
  listT (mapT (base .stringT unqualified) (base .integerT unqualified) unqualified) unqualified

def mapToAny : YType := mapT (base .stringT unqualified) (base .anyT unqualified) unqualified

theorem is_iff_cast_list_map :
    listOfMaps.isDataType = true ∧ listOfMaps.checksAgree = true ∧
      ∀ v : YCPValue, v.isData = true →
        (0 ≤ listOfMaps.matchvalue v ↔ canPropagate (fun _ => false) v listOfMaps = true) :=
  ⟨rfl, rfl, (is_iff_cast_iff (fun _ => false) listOfMaps rfl).mpr rfl⟩

/-- `$[1:nil]` is a `map <string, any>` for `is` and not for the cast; `""` is a `locale` for the cast
and not for `is`. -/
theorem is_cast_differ :
    (YCPValue.map [(.integer 1, .void)]).isData = true ∧ mapToAny.isDataType = true ∧
      0 ≤ mapToAny.matchvalue (.map [(.integer 1, .void)]) ∧
      canPropagate (fun _ => false) (.map [(.integer 1, .void)]) mapToAny = false ∧
      ¬0 ≤ (base .localeT unqualified).matchvalue (.string []) ∧
      canPropagate (fun _ => false) (.string []) (base .localeT unqualified) = true := by
  refine ⟨rfl, rfl, Int.le_refl 0, rfl, ?_, rfl⟩
  decide

end YastCore.YType
