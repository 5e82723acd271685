import YastCore.Type.Match

/-!
# Common types

The elements of a list have the type that `Type::commontype` makes of their types one after the other. Of
two base types it keeps the first one if that matches the second, "a type that can hold both given types"
only if the second matches the first as well.
-/

namespace YastCore.YType

/-- `match` is not negative: a value of the type can stand where the other is expected. -/
def suits (t expected : YType) : Bool := (matchType t expected).any fun m => decide (0 ≤ m)

/-! ### Lists and maps -/

/-- The loop of `YEList::type`. -/
def elementType (res : YType) : List YType → Option YType
  | [] => some res
  | t :: elements => do
    let res ← commontype res t
    elementType res elements

/-- The loop of `YEMap::type`. -/
def elementTypes (reskey resvalue : YType) : List (YType × YType) → Option (YType × YType)
  | [] => some (reskey, resvalue)
  | (key, value) :: elements => do
    let reskey ← commontype reskey key
    let resvalue ← commontype resvalue value
    elementTypes reskey resvalue elements

/-- `YEList::type`, of a list with at least one element. -/
def yeListType (first : YType) (elements : List YType) : Option YType :=
  (elementType first elements).map fun res => listT res unqualified

/-- `YEMap::type`, of a map with at least one element. -/
def yeMapType (first : YType × YType) (elements : List (YType × YType)) : Option YType :=
  (elementTypes first.1 first.2 elements).map fun (reskey, resvalue) => mapT reskey resvalue unqualified

/-- A type that each of the types suits, unless it is the error type. -/
def Bounds (bound : YType) (types : List YType) : Prop :=
  bound.isError = false → ∀ t ∈ types, suits t bound = true

/-! ### What suits a common type -/

/-- The common type of two types is the unspecified one. -/
def commonUnspec : YType → YType → Bool
  | base k q, b =>
    if (base k q).isVoid then b.isUnspec
    else if suits (base k q) b then (base k q).isUnspec
    else if (base k q).isAny then false
    else suits b (base k q) && b.isUnspec
  | _, _ => false

/-- A type suits what two types have in common: the one of them that is kept, or `any`. -/
def suitsCommon (t : YType) : YType → YType → Bool
  | base k q, b =>
    if (base k q).isVoid then suits t b
    else if suits (base k q) b then suits t (base k q)
    else if !(base k q).isAny && suits b (base k q) then suits t b
    else !t.isError
  | listT a q, b =>
    if b.isVoid || b.isUnspec then suits t (listT a q)
    else
      match b with
      | listT b _ =>
        match t with
        | base .voidT _ => true
        | listT t _ => t.isUnspec || commonUnspec a b || suitsCommon t a b
        | _ => false
      | _ => !t.isError
  | mapT ak av q, b =>
    if b.isVoid || b.isUnspec then suits t (mapT ak av q)
    else
      match b with
      | mapT bk bv _ =>
        match t with
        | base .voidT _ => true
        | mapT tk tv _ => (tk.isUnspec || suitsCommon tk ak bk) && (tv.isUnspec || suitsCommon tv av bv)
        | _ => false
      | _ => !t.isError
  | _, _ => false

lemma suits_any {t : YType} (ht : t.isData = true) : suits t (base .anyT unqualified) = !t.isError := by
  cases t with
  | base k q => cases k <;> rfl
  | listT t q => rfl
  | mapT k v q => rfl
  | _ => cases ht

lemma suits_base_list (k : BaseKind) (q : Qualifiers) (t : YType) :
    suits (base k q) (listT t unqualified) = (k == .voidT) := by
  cases k <;> rfl

lemma suits_base_map (k : BaseKind) (q : Qualifiers) (k' v' : YType) :
    suits (base k q) (mapT k' v' unqualified) = (k == .voidT) := by
  cases k <;> rfl

lemma suits_list_of_basematch {t b : YType} {q q' : Qualifiers}
    (hbase : basematch (listT t q) (listT b q') = 0) (h : t.isData = true) :
    suits (listT t q) (listT b q') = (b.isUnspec || t.isUnspec || suits t b) := by
  obtain ⟨m, hm⟩ := Option.isSome_iff_exists.mp (matchType_isSome h b)
  rw [suits, suits, matchType, constructedMatch, hbase, hm]
  cases b.isUnspec <;> cases t.isUnspec <;> by_cases hle : 0 ≤ m <;> simp [hle]

lemma suits_list_list (t b : YType) (q : Qualifiers) (h : t.isData = true) :
    suits (listT t q) (listT b unqualified) = (b.isUnspec || t.isUnspec || suits t b) := by
  have hbase : basematch (listT t q) (listT b unqualified) = 0 := by
    obtain ⟨c, r⟩ := q
    cases c <;> rfl
  exact suits_list_of_basematch hbase h

lemma suits_map_of_basematch {tk tv bk bv : YType} {q q' : Qualifiers}
    (hbase : basematch (mapT tk tv q) (mapT bk bv q') = 0) (hk : tk.isData = true)
    (hv : tv.isData = true) :
    suits (mapT tk tv q) (mapT bk bv q') =
      ((tk.isUnspec || suits tk bk) && (tv.isUnspec || suits tv bv)) := by
  obtain ⟨m, hm⟩ := Option.isSome_iff_exists.mp (matchType_isSome hk bk)
  obtain ⟨n, hn⟩ := Option.isSome_iff_exists.mp (matchType_isSome hv bv)
  rw [suits, suits, suits, matchType, constructedMatch, hbase, hm, hn]
  cases tk.isUnspec <;> cases tv.isUnspec <;> by_cases hle : 0 ≤ m <;> by_cases hle' : 0 ≤ n <;>
    simp [hle, hle']

lemma suits_map_map {tk tv : YType} (bk bv : YType) (q : Qualifiers) (hk : tk.isData = true)
    (hv : tv.isData = true) :
    suits (mapT tk tv q) (mapT bk bv unqualified) =
      ((tk.isUnspec || suits tk bk) && (tv.isUnspec || suits tv bv)) := by
  have hbase : basematch (mapT tk tv q) (mapT bk bv unqualified) = 0 := by
    obtain ⟨c, r⟩ := q
    cases c <;> rfl
  exact suits_map_of_basematch hbase hk hv

lemma suits_list_map (t b b' : YType) (q : Qualifiers) :
    suits (listT t q) (mapT b b' unqualified) = false := by
  obtain ⟨c, r⟩ := q
  cases c <;> rfl

lemma suits_map_list (t t' b : YType) (q : Qualifiers) :
    suits (mapT t t' q) (listT b unqualified) = false := by
  obtain ⟨c, r⟩ := q
  cases c <;> rfl

/-- Of a base type and another one the first is kept if it suits the second. -/
lemma commontype_base_eq (k : BaseKind) (q : Qualifiers) {b : YType} (hb : b.isData = true) :
    commontype (base k q) b =
      some (if (base k q).isVoid then b
        else if suits (base k q) b then base k q
        else if !(base k q).isAny && suits b (base k q) then b
        else base .anyT unqualified) := by
  have ha : (base k q).isData = true := rfl
  obtain ⟨m, hm⟩ := Option.isSome_iff_exists.mp (matchType_isSome ha b)
  obtain ⟨m', hm'⟩ := Option.isSome_iff_exists.mp (matchType_isSome hb (base k q))
  rw [commontype, suits, suits, hm, hm']
  · cases (base k q).isVoid with
    | true => rfl
    | false =>
      by_cases hle : 0 ≤ m
      · simp [hle]
      · cases (base k q).isAny with
        | true => simp [hle]
        | false => by_cases hle' : 0 ≤ m' <;> simp [hle, hle']
  · intros
    contradiction
  · intros
    contradiction

/-- What a list or a map has in common with another type is constructed, or `any`. -/
lemma isKind_commontype {kind : BaseKind} (hkind : kind ≠ .anyT) {a b c : YType} (ha : a.isData = true)
    (hconstructed : a.isBasetype = false) (h : commontype a b = some c) : c.isKind kind = false := by
  have hany : (base .anyT unqualified).isKind kind = false := beq_eq_false_iff_ne.mpr hkind.symm
  cases a with
  | listT a q =>
    rw [commontype.eq_def] at h
    dsimp only at h
    split at h
    · cases h
      rfl
    split at h
    · obtain ⟨c', -, rfl⟩ := Option.map_eq_some_iff.mp h
      rfl
    · cases h
      exact hany
  | mapT ak av q =>
    rw [commontype.eq_def] at h
    dsimp only at h
    split at h
    · cases h
      rfl
    split at h
    · obtain ⟨k, -, h⟩ := Option.bind_eq_some_iff.mp h
      obtain ⟨v, -, h⟩ := Option.bind_eq_some_iff.mp h
      cases h
      rfl
    · cases h
      exact hany
  | base k q => cases hconstructed
  | _ => cases ha

lemma isUnspec_commontype {a b c : YType} (ha : a.isData = true) (hb : b.isData = true)
    (h : commontype a b = some c) : c.isUnspec = commonUnspec a b := by
  cases a with
  | base k q =>
    rw [commontype_base_eq k q hb, Option.some.injEq] at h
    rw [← h, commonUnspec]
    cases (base k q).isVoid with
    | true => rfl
    | false =>
      cases suits (base k q) b with
      | true => rfl
      | false =>
        cases (base k q).isAny with
        | true => rfl
        | false => cases suits b (base k q) <;> rfl
  | listT a q => exact isKind_commontype (by decide : BaseKind.unspecT ≠ .anyT) ha rfl h
  | mapT ak av q => exact isKind_commontype (by decide : BaseKind.unspecT ≠ .anyT) ha rfl h
  | _ => cases ha

lemma suits_commontype {t a b c : YType} (ht : t.isData = true) (ha : a.isData = true)
    (hb : b.isData = true) (h : commontype a b = some c) : suits t c = suitsCommon t a b := by
  induction a using YType.induct generalizing t b c with
  | base k q =>
    rw [commontype_base_eq k q hb, Option.some.injEq] at h
    rw [← h, suitsCommon]
    cases (base k q).isVoid with
    | true => rfl
    | false =>
      cases suits (base k q) b with
      | true => rfl
      | false =>
        cases !(base k q).isAny && suits b (base k q) with
        | true => rfl
        | false => exact suits_any ht
  | listT a q ih =>
    rw [commontype.eq_def] at h
    rw [suitsCommon.eq_def]
    dsimp only at h ⊢
    split at h
    next hvoid =>
      rw [if_pos hvoid]
      cases h
      rfl
    next hvoid =>
      rw [if_neg hvoid]
      cases b with
      | listT b q' =>
        obtain ⟨c', hc', rfl⟩ := Option.map_eq_some_iff.mp h
        cases t with
        | base k q'' => exact (suits_base_list k q'' c').trans (by cases k <;> rfl)
        | listT t q'' =>
          have ha' : a.isData = true := ha
          have hb' : b.isData = true := hb
          have ht' : t.isData = true := ht
          rw [suits_list_list t c' q'' ht', isUnspec_commontype ha' hb' hc', ih ht' ha' hb' hc']
          dsimp only
          rw [Bool.or_comm (commonUnspec a b) t.isUnspec]
        | mapT k v q'' => exact suits_map_list k v c' q''
        | _ => cases ht
      | _ =>
        cases h
        exact suits_any ht
  | mapT ak av q ihk ihv =>
    rw [isData, Bool.and_eq_true] at ha
    rw [commontype.eq_def] at h
    rw [suitsCommon.eq_def]
    dsimp only at h ⊢
    split at h
    next hvoid =>
      rw [if_pos hvoid]
      cases h
      rfl
    next hvoid =>
      rw [if_neg hvoid]
      cases b with
      | mapT bk bv q' =>
        rw [isData, Bool.and_eq_true] at hb
        obtain ⟨ck, hck, h⟩ := Option.bind_eq_some_iff.mp h
        obtain ⟨cv, hcv, h⟩ := Option.bind_eq_some_iff.mp h
        cases h
        cases t with
        | base k q'' => exact (suits_base_map k q'' ck cv).trans (by cases k <;> rfl)
        | listT t q'' => exact suits_list_map t ck cv q''
        | mapT tk tv q'' =>
          rw [isData, Bool.and_eq_true] at ht
          rw [suits_map_map ck cv q'' ht.1 ht.2, ihk ht.1 ha.1 hb.1 hck, ihv ht.2 ha.2 hb.2 hcv]
        | _ => cases ht
      | _ =>
        cases h
        exact suits_any ht
  | _ => cases ha

/-! ### When the common type is a bound -/

/-- The types suit what `a` and `b` have in common. `nil` and the error type have the error type in
common, which bounds nothing. -/
def Kept (types : List YType) (a b : YType) : Prop :=
  (a.isVoid = true ∧ b.isError = true) ∨ ∀ t ∈ types, suitsCommon t a b = true

lemma isError_eq {t : YType} (h : t.isError = true) : ∃ q, t = base .errorT q := by
  cases t with
  | base k q =>
    have hk : k = .errorT := eq_of_beq h
    exact ⟨q, by rw [hk]⟩
  | _ => cases h

lemma isError_commontype {a b c : YType} (ha : a.isData = true) (hb : b.isData = true)
    (h : commontype a b = some c) : c.isError = (a.isVoid && b.isError) := by
  cases a with
  | base k q =>
    rw [commontype_base_eq k q hb, Option.some.injEq] at h
    rw [← h]
    cases hvoid : (base k q).isVoid with
    | true => rfl
    | false =>
      rw [if_neg Bool.false_ne_true, Bool.false_and]
      cases hsuits : suits (base k q) b with
      | true =>
        -- the error type suits nothing
        cases k <;> first | rfl | cases hsuits
      | false =>
        rw [if_neg Bool.false_ne_true]
        split
        next hkept =>
          cases herror : b.isError with
          | false => rfl
          | true =>
            obtain ⟨q', rfl⟩ := isError_eq herror
            cases k <;> cases hkept
        next => rfl
  | listT a q => exact isKind_commontype (by decide : BaseKind.errorT ≠ .anyT) ha rfl h
  | mapT ak av q => exact isKind_commontype (by decide : BaseKind.errorT ≠ .anyT) ha rfl h
  | _ => cases ha

/-- One step: what it makes of two types bounds the types that suit what they have in common. -/
lemma bounds_commontype_iff {types : List YType} {a b c : YType} (htypes : ∀ t ∈ types, t.isData = true)
    (ha : a.isData = true) (hb : b.isData = true) (h : commontype a b = some c) :
    Bounds c types ↔ Kept types a b := by
  have hsuits : (∀ t ∈ types, suits t c = true) ↔ ∀ t ∈ types, suitsCommon t a b = true := by
    constructor
    · intro hall t ht
      rw [← suits_commontype (htypes t ht) ha hb h]
      exact hall t ht
    · intro hall t ht
      rw [suits_commontype (htypes t ht) ha hb h]
      exact hall t ht
  rw [Bounds, Kept, isError_commontype ha hb h, hsuits]
  cases a.isVoid <;> cases b.isError <;> simp

lemma elementType_append (res : YType) (elements elements' : List YType) :
    elementType res (elements ++ elements') =
      (elementType res elements).bind fun res => elementType res elements' := by
  induction elements generalizing res with
  | nil => rfl
  | cons t elements ih =>
    rw [List.cons_append, elementType, elementType]
    cases commontype res t with
    | none => rfl
    | some res' => exact ih res'

lemma elementType_data {res : YType} {elements : List YType} (hres : res.isData = true)
    (h : ∀ t ∈ elements, t.isData = true) : ∃ c, elementType res elements = some c ∧ c.isData = true := by
  induction elements generalizing res with
  | nil => exact ⟨res, rfl, hres⟩
  | cons t elements ih =>
    obtain ⟨res', hres', hdata⟩ := commontype_data hres (h t List.mem_cons_self)
    obtain ⟨c, hc, hcdata⟩ := ih hdata fun t' ht' => h t' (List.mem_cons_of_mem t ht')
    exact ⟨c, by rw [elementType, hres']; exact hc, hcdata⟩

/-- The two folds of a map do not meet. -/
lemma elementTypes_eq (reskey resvalue : YType) (elements : List (YType × YType)) :
    elementTypes reskey resvalue elements =
      (elementType reskey (elements.map Prod.fst)).bind fun key =>
        (elementType resvalue (elements.map Prod.snd)).map fun value => (key, value) := by
  induction elements generalizing reskey resvalue with
  | nil => rfl
  | cons e elements ih =>
    obtain ⟨key, value⟩ := e
    rw [elementTypes, List.map_cons, List.map_cons, elementType, elementType]
    cases commontype reskey key with
    | none => rfl
    | some reskey' =>
      cases commontype resvalue value with
      | none =>
        rw [Option.bind_eq_bind, Option.bind_some, Option.bind_eq_bind, Option.bind_none, Option.bind_some,
          Option.bind_none]
        cases elementType reskey' (elements.map Prod.fst) <;> rfl
      | some resvalue' => exact ih reskey' resvalue'

/-- The error type is nowhere in the type. -/
def noError : YType → Bool
  | base k _ => k != .errorT
  | listT t _ => noError t
  | mapT keytype valuetype _ => noError keytype && noError valuetype
  | _ => true

lemma suits_of_isUnspec {t : YType} (h : t.isUnspec = true) : suits t t = true := by
  cases t with
  | base k q =>
    obtain ⟨c, r⟩ := q
    cases k <;> first | (cases c <;> cases r <;> rfl) | cases h
  | _ => cases h

lemma suits_self {t : YType} (ht : t.isData = true) : suits t t = noError t := by
  induction t using YType.induct with
  | base k q =>
    obtain ⟨c, r⟩ := q
    cases c <;> cases r <;> cases k <;> rfl
  | listT t q ih =>
    have hdata : t.isData = true := ht
    have hbase : basematch (listT t q) (listT t q) = 0 := by
      obtain ⟨c, r⟩ := q
      cases c <;> cases r <;> rfl
    rw [suits_list_of_basematch hbase hdata, Bool.or_self, noError, ← ih hdata]
    cases hunspec : t.isUnspec with
    | true => rw [suits_of_isUnspec hunspec]; rfl
    | false => rfl
  | mapT k v q ihk ihv =>
    rw [isData, Bool.and_eq_true] at ht
    have hbase : basematch (mapT k v q) (mapT k v q) = 0 := by
      obtain ⟨c, r⟩ := q
      cases c <;> cases r <;> rfl
    have hor : ∀ {u : YType}, suits u u = noError u → (u.isUnspec || suits u u) = noError u := by
      intro u hu
      cases hunspec : u.isUnspec with
      | true => rw [← hu, suits_of_isUnspec hunspec]; rfl
      | false => rw [hu]; rfl
    rw [suits_map_of_basematch hbase ht.1 ht.2, hor (ihk ht.1), hor (ihv ht.2), noError]
  | _ => cases ht

/-- The condition on a list of element types: the only one has no error type in it, or at the last step
they suit what is kept. -/
def ElementsKept (first : YType) (elements : List YType) : Prop :=
  (elements = [] → first.isError = true ∨ noError first = true) ∧
    ∀ before last, elements = before ++ [last] →
      ∃ res, elementType first before = some res ∧ Kept (first :: elements) res last

lemma elements_bounded_iff {first : YType} {elements : List YType}
    (h : ∀ t ∈ first :: elements, t.isData = true) :
    (∃ c, elementType first elements = some c ∧ Bounds c (first :: elements)) ↔
      ElementsKept first elements := by
  have hfirst := h first List.mem_cons_self
  have helements : ∀ t ∈ elements, t.isData = true := fun t ht => h t (List.mem_cons_of_mem first ht)
  obtain rfl | ⟨before, last, rfl⟩ := List.eq_nil_or_concat' elements
  · constructor
    · rintro ⟨c, hc, hbounds⟩
      cases hc
      refine ⟨fun _ => ?_, fun before last hnil => absurd hnil (by simp)⟩
      cases herror : first.isError with
      | true => exact Or.inl rfl
      | false =>
        rw [← suits_self hfirst]
        exact Or.inr (hbounds herror first List.mem_cons_self)
    · rintro ⟨hnil, -⟩
      refine ⟨first, rfl, ?_⟩
      intro herror t ht
      rw [List.mem_singleton.mp ht, suits_self hfirst]
      exact (hnil rfl).resolve_left (by simp [herror])
  · have hlast := helements last (by simp)
    have hbefore : ∀ t ∈ before, t.isData = true := fun t ht => helements t (List.mem_append_left _ ht)
    obtain ⟨res, hres, hresdata⟩ := elementType_data hfirst hbefore
    obtain ⟨c, hc, -⟩ := commontype_data hresdata hlast
    have hwhole : elementType first (before ++ [last]) = some c := by
      rw [elementType_append, hres, Option.bind_some, elementType, hc]
      rfl
    have hstep := bounds_commontype_iff h hresdata hlast hc
    constructor
    · rintro ⟨c', hc', hbounds⟩
      rw [hwhole] at hc'
      cases hc'
      refine ⟨fun hnil => absurd hnil (by simp), ?_⟩
      intro before' last' heq
      obtain ⟨rfl, hlast'⟩ := List.append_inj' heq rfl
      cases hlast'
      exact ⟨res, hres, hstep.mp hbounds⟩
    · rintro ⟨-, hkept⟩
      obtain ⟨res', hres', hkept⟩ := hkept before last rfl
      rw [hres] at hres'
      cases hres'
      exact ⟨c, hwhole, hstep.mpr hkept⟩

end YastCore.YType
