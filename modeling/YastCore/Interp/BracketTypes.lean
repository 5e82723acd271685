import Mathlib.Data.List.Forall2
import YastCore.Interp.Evaluate
import YastCore.Type.Takes
import YastCore.Value.Bracket

/-!
# Types in bracket assignments

The parser follows the declared type of the variable along the indices, the interpreter follows the
value. What is stored is of the declared type where the value fits at its place, and the parser ensures
that as long as it accepts no conversion.
-/

namespace YastCore.Interp

open YCPValue YType

/-! ### The check of the parser -/

/-- For a function the type of its result. -/
def bracketParam : YType → YType
  | .functionT returntype _ _ => returntype
  | t => t

def isList : YType → Bool
  | .listT _ _ => true
  | _ => false

def isMap : YType → Bool
  | .mapT _ _ _ => true
  | _ => false

/-- The type at one more parameter; none after an error. -/
def bracketType (cur paramType : YType) : Option YType :=
  match cur with
  | .listT type _ => if paramType.isInteger then some type else none
  | .mapT keytype valuetype _ =>
    match paramType.matchType keytype with
    | none => none
    | some m => if m = -1 then none else some valuetype
  | .base kind q =>
    if kind = .termT then if paramType.isInteger then some (.base .anyT unqualified) else none
    else some (.base kind q)
  | t => some t

/-- The loop over the parameters, which ends where the type is no list and no map. -/
def bracketTarget (cur : YType) : List YType → Option YType
  | [] => some cur
  | param :: params =>
    match bracketType cur (bracketParam param) with
    | none => none
    | some cur => if isList cur || isMap cur then bracketTarget cur params else some cur

/-- The check of `identifier '[' list_elements ']' '=' expression`: none after an error, else the type
that the right-hand side is propagated to, if it is. -/
def checkBracketAssign (declared : YType) (params : List YType) (rhs : YType) : Option (Option YType) :=
  if declared.isUnspec then none
  else if !isList declared && !isMap declared && !declared.isTerm then none
  else if declared.isConst then none
  else
    match bracketTarget declared params with
    | none => none
    | some cur =>
      match rhs.matchType cur with
      | none => none
      | some m => if 0 < m then some (some cur) else if m = 0 then some none else none

/-- The value of the right-hand side that the parser leaves. -/
def assignedValue (P : Program) (target : Option YType) (value : YCPValue) : M YCPValue :=
  match target with
  | none => return value
  | some toType => propagate P toType value

/-! ### What is stored where -/

/-- Something is stored: each index but the last leads to a container, and the last one is one of it. -/
def Reaches : YCPValue → List YCPValue → Prop
  | _, [] => True
  | .list l, .integer i :: rest => 0 ≤ narrow i ∧ Reaches (listValue l (narrow i)) rest
  | .term _ l, .integer i :: rest => 0 ≤ narrow i ∧ Reaches (listValue l (narrow i)) rest
  | .map m, a :: rest => a.isMapKey = true ∧ Reaches (mapValue m a) rest
  | _, _ :: _ => False

/-- The keys of typed maps on the way are of the key types, and the value is of the type at the end. -/
def Fits : YType → List YCPValue → YCPValue → Prop
  | t, [], v => t.Takes v
  | .listT type _, _ :: rest, v => type.unchecked = true ∨ Fits type rest v
  | .mapT keytype valuetype _, a :: rest, v =>
    valuetype.unchecked = true ∨ keytype.Takes a ∧ Fits valuetype rest v
  | _, _ :: _, _ => True

/-- The parameters for the keys of typed maps and the right-hand side match without a conversion. -/
def assignsExactly : YType → List YType → YType → Bool
  | t, [], rhs => rhs.matchesExactly t
  | .listT type _, _ :: params, rhs => type.unchecked || assignsExactly type params rhs
  | .mapT keytype valuetype _, param :: params, rhs =>
    valuetype.unchecked || (bracketParam param).matchesExactly keytype && assignsExactly valuetype params rhs
  | _, _ :: _, _ => true

/-! ### Elements of containers -/

section

variable {t k : YType} {q : Qualifiers} {current argval value val r v : YCPValue} {rest : List YCPValue}
  {l l' : List YCPValue} {m : List (YCPValue × YCPValue)} {i : Int}

lemma listValue_mem (h : (listValue l i).isNull = false) : listValue l i ∈ l := by
  rw [listValue] at h ⊢
  split at h
  · cases h
  next hin =>
    rw [if_neg hin]
    rw [List.getD_eq_getElem?_getD] at h ⊢
    cases hget : l[i.toNat]? with
    | none =>
      rw [hget] at h
      cases h
    | some e => exact List.mem_of_getElem? hget

/-- A key that is neither less nor greater than one of a map is the same. -/
lemma eq_of_incomparable {a b : YCPValue} (ha : a.isNull = false) (hb : b.isMapKey = true)
    (h : keyLess a b = false) (h' : keyLess b a = false) : a = b := by
  have hbnull := isNull_of_isMapKey hb
  by_cases htype : a.valuetype = b.valuetype
  · have hkey : a.isMapKey = true := by rw [isMapKey_eq, htype, ← isMapKey_eq, hb]
    exact eq_of_not_keyLess hkey hb h h'
  · rw [keyLess, compare_of_valuetype_ne ha hbnull htype] at h
    rw [keyLess, compare_of_valuetype_ne hbnull ha (Ne.symm htype)] at h'
    rcases Nat.lt_or_gt_of_ne htype with hlt | hlt
    · simp [hlt] at h
    · simp [hlt] at h'

lemma mapValue_mem (hm : ∀ e ∈ m, e.1.isNull = false) {a : YCPValue} (ha : a.isMapKey = true)
    (h : (mapValue m a).isNull = false) : (a, mapValue m a) ∈ m := by
  unfold mapValue at h ⊢
  cases hfind : m.find? fun e => !keyLess e.1 a && !keyLess a e.1 with
  | none =>
    rw [hfind] at h
    cases h
  | some e =>
    have hmem := List.mem_of_find?_eq_some hfind
    have hkey := List.find?_some hfind
    rw [Bool.and_eq_true, Bool.not_eq_true', Bool.not_eq_true'] at hkey
    have heq := eq_of_incomparable (hm e hmem) ha hkey.1 hkey.2
    rwa [← heq]

lemma mem_mapInsert_self (hm : ∀ e ∈ m, e.1.isNull = false) {a : YCPValue} (ha : a.isMapKey = true) :
    (a, val) ∈ mapInsert a val m := by
  induction m with
  | nil => exact List.mem_singleton_self _
  | cons e m ih =>
    obtain ⟨hhead, htail⟩ := List.forall_mem_cons.mp hm
    rw [mapInsert]
    split
    · exact List.mem_cons_of_mem _ (ih htail)
    next hless =>
      split
      · exact List.mem_cons_self
      next hgreater =>
        have heq := eq_of_incomparable hhead ha (Bool.not_eq_true _ ▸ hless) (Bool.not_eq_true _ ▸ hgreater)
        rw [heq]
        exact List.mem_cons_self

/-- A list with an element set is of the element type if that element is. -/
lemma takes_repSet_iff (hl : ∀ e ∈ l, t.Takes e) (hi : 0 ≤ i) (h : repSet l i v = some l') :
    (∀ e ∈ l', t.Takes e) ↔ t.Takes v := by
  obtain ⟨-, rfl⟩ := repSet_eq_some hi h
  have hsize := listSize_le l
  constructor
  · intro hall
    refine hall v (List.mem_iff_getElem?.mpr ⟨i.toNat, ?_⟩)
    rw [List.getElem?_set_self]
    rw [List.length_append, List.length_replicate]
    omega
  · intro hv e he
    rcases List.mem_or_eq_of_mem_set he with hmem | rfl
    · rcases List.mem_append.mp hmem with hold | hpad
      · exact hl e hold
      · rw [List.eq_of_mem_replicate hpad]
        exact takes_of_isVoid rfl
    · exact hv

/-- A map with an entry is of the map type if the key and the value are of its types. -/
lemma takes_mapInsert_iff (hm : ∀ e ∈ m, k.Takes e.1 ∧ t.Takes e.2) {a : YCPValue}
    (ha : a.isMapKey = true) :
    (∀ e ∈ mapInsert a v m, k.Takes e.1 ∧ t.Takes e.2) ↔ k.Takes a ∧ t.Takes v := by
  constructor
  · intro hall
    exact hall (a, v) (mem_mapInsert_self (fun e he => isNull_of_takes (hm e he).1) ha)
  · rintro ⟨hkey, hvalue⟩ e he
    rcases mem_mapInsert he with rfl | ⟨e', he', hkeys, hvalues⟩
    · exact ⟨hkey, hvalue⟩
    · rw [hkeys]
      refine ⟨(hm e' he').1, ?_⟩
      rcases hvalues with hsame | hnew
      · rw [hsame]
        exact (hm e' he').2
      · rw [hnew]
        exact hvalue

/-! ### One level of an assignment -/

lemma isEmpty_commit (place : YCPValue) (hvalue : value.isNull = false) :
    (if rest.isEmpty then some (stored value) else bracketCommit place rest value) =
      bracketCommit place rest value := by
  cases rest with
  | nil =>
    unfold bracketCommit
    rw [if_pos List.isEmpty_nil, stored, hvalue]
    rfl
  | cons a rest => rfl

/-- Past the first index nothing is stored in the null handle. -/
lemma notNull_of_commit {place : YCPValue} (hrest : rest ≠ [])
    (h : bracketCommit place rest value = some val) (hval : val.isNull = false) : place.isNull = false := by
  obtain ⟨a, rest, rfl⟩ := List.exists_cons_of_ne_nil hrest
  cases place with
  | null =>
    rw [bracketCommit_null, Option.some.injEq] at h
    subst h
    cases hval
  | _ => rfl

/-! ### All levels -/

lemma fits_of_isAny (ht : t.isAny = true) (a : YCPValue) : Fits t (a :: rest) value := by
  cases t with
  | base kind q => trivial
  | _ => cases ht

lemma fits_of_isTerm (ht : t.isTerm = true) (a : YCPValue) : Fits t (a :: rest) value := by
  cases t with
  | base kind q => trivial
  | _ => cases ht

lemma reaches_element {j : Int64} (hl : elements current = some l) :
    Reaches current (.integer j :: rest) ↔ 0 ≤ narrow j ∧ Reaches (listValue l (narrow j)) rest := by
  cases current <;> simp only [elements, reduceCtorEq, Option.some.injEq] at hl
  all_goals
    subst hl
    rw [Reaches]

/-- A list is of its type after an assignment exactly if the element is, where one is set. -/
lemma takes_list_repSet_iff {j : Int64} (hl : (YType.listT t q).Takes (.list l))
    (hset : repSet l (narrow j) val = some l')
    (ih : (∀ e ∈ l, t.Takes e) →
      (t.Takes val ↔ (Reaches (listValue l (narrow j)) rest → Fits t rest value))) :
    (YType.listT t q).Takes (.list l') ↔
      (Reaches (.list l) (.integer j :: rest) → Fits (.listT t q) (.integer j :: rest) value) := by
  rw [reaches_element (l := l) rfl, Fits, takes_list_iff]
  by_cases hfree : t.unchecked = true
  · exact iff_of_true (.inl hfree) fun _ => .inl hfree
  have hall := (takes_list_iff.mp hl).resolve_left hfree
  rw [or_iff_right hfree, or_iff_right hfree]
  by_cases hneg : narrow j < 0
  · rw [repSet, if_pos hneg, Option.some.injEq] at hset
    subst hset
    exact iff_of_true hall fun hreach => absurd hreach.1 (by omega)
  · have hpos : 0 ≤ narrow j := by omega
    rw [takes_repSet_iff hall hpos hset, ih hall]
    exact ⟨fun h hreach => h hreach.2, fun h hreach => h ⟨hpos, hreach⟩⟩

/-- A map is of its type after an assignment exactly if the key and the value are of its types. -/
lemma takes_map_mapInsert_iff {a : YCPValue} (hm : (YType.mapT k t q).Takes (.map m))
    (ha : a.isMapKey = true) (hplace : rest ≠ [] → (mapValue m a).isNull = false)
    (ih : (rest ≠ [] → t.Takes (mapValue m a)) →
      (t.Takes val ↔ (Reaches (mapValue m a) rest → Fits t rest value))) :
    (YType.mapT k t q).Takes (.map (mapInsert a val m)) ↔
      (Reaches (.map m) (a :: rest) → Fits (.mapT k t q) (a :: rest) value) := by
  rw [Reaches, Fits, takes_map_iff]
  by_cases hfree : t.unchecked = true
  · exact iff_of_true (.inl hfree) fun _ => .inl hfree
  have hall := (takes_map_iff.mp hm).resolve_left hfree
  have hmem : rest ≠ [] → (a, mapValue m a) ∈ m := fun hrest =>
    mapValue_mem (fun e he => isNull_of_takes (hall e he).1) ha (hplace hrest)
  rw [or_iff_right hfree, or_iff_right hfree, takes_mapInsert_iff hall ha,
    ih fun hrest => (hall _ (hmem hrest)).2]
  by_cases hrest : rest = []
  · subst hrest
    cases t <;> exact ⟨fun h _ => ⟨h.1, h.2 trivial⟩, fun h => ⟨(h ⟨ha, trivial⟩).1, fun _ => (h ⟨ha, trivial⟩).2⟩⟩
  -- the key of a value that is there is one of the map
  · have hkey : k.Takes a := (hall _ (hmem hrest)).1
    exact ⟨fun h hreach => ⟨hkey, h.2 hreach.2⟩, fun h => ⟨hkey, fun hreach => (h ⟨ha, hreach⟩).2⟩⟩

/-- What is stored is of the type exactly if it fits, or nothing is stored. -/
lemma takes_bracketCommit_iff {arg : List YCPValue} (hcurrent : arg ≠ [] → t.Takes current)
    (hvalue : value.isNull = false) (h : bracketCommit current arg value = some r)
    (hr : r.isNull = false) : t.Takes r ↔ (Reaches current arg → Fits t arg value) := by
  induction arg generalizing t current r with
  | nil =>
    unfold bracketCommit at h
    rw [Option.some.injEq] at h
    subst h
    cases t <;> exact ⟨fun h _ => h, fun h => h trivial⟩
  | cons a rest ih =>
    have htakes := hcurrent (List.cons_ne_nil _ _)
    clear hcurrent
    cases commits_of_bracketCommit h hr with
    | @element _ val l l' i hold hindex hval hcommit hset =>
      subst hindex
      rw [isEmpty_commit _ hvalue] at hcommit
      cases current with
      | list l₀ =>
        obtain rfl := Option.some.inj hold
        rcases takes_list_cases htakes with hany | ⟨type, q, rfl⟩
        · exact iff_of_true (takes_of_isAny hany hr) fun _ => fits_of_isAny hany _
        · refine takes_list_repSet_iff htakes hset fun hall => ih (fun hrest => ?_) hcommit hval
          exact hall _ (listValue_mem (notNull_of_commit hrest hcommit hval))
      | term name l₀ =>
        rcases takes_term_cases htakes with hany | hterm
        · exact iff_of_true (takes_of_isAny hany hr) fun _ => fits_of_isAny hany _
        · exact iff_of_true (takes_term hterm) fun _ => fits_of_isTerm hterm _
      | _ => cases hold
    | @entry val m hkey hval hcommit =>
      rw [isEmpty_commit _ hvalue] at hcommit
      rcases takes_map_cases htakes with hany | ⟨k, type, q, rfl⟩
      · exact iff_of_true (takes_of_isAny hany hr) fun _ => fits_of_isAny hany _
      · exact takes_map_mapInsert_iff htakes hkey (fun hrest => notNull_of_commit hrest hcommit hval)
          fun htype => ih htype hcommit hval

lemma notNull_element {l : List YCPValue} {j : Int64} (hl : elements current = some l)
    (hvalue : value.isNull = false)
    (hinner : ∀ val, bracketCommit (listValue l (narrow j)) rest value = some val → val.isNull = false)
    (h : bracketCommit current (.integer j :: rest) value = some r) : r.isNull = false := by
  rw [bracketCommit_element hl, isEmpty_commit _ hvalue] at h
  cases hcommit : bracketCommit (listValue l (narrow j)) rest value with
  | none =>
    rw [hcommit] at h
    cases h
  | some val =>
    rw [hcommit] at h
    dsimp only at h
    rw [hinner val hcommit, if_neg Bool.false_ne_true] at h
    obtain ⟨l', -, rfl⟩ := Option.map_eq_some_iff.mp h
    cases current <;> rfl

lemma notNull_entry {a : YCPValue} (ha : a.isMapKey = true) (hvalue : value.isNull = false)
    (hinner : ∀ val, bracketCommit (mapValue m a) rest value = some val → val.isNull = false)
    (h : bracketCommit (.map m) (a :: rest) value = some r) : r.isNull = false := by
  unfold bracketCommit at h
  rw [isNull_of_isMapKey ha, if_neg (show ¬ (YCPValue.map m).isNull = true from Bool.false_ne_true),
    if_neg Bool.false_ne_true] at h
  dsimp only at h
  rw [isEmpty_commit _ hvalue] at h
  cases hcommit : bracketCommit (mapValue m a) rest value with
  | none =>
    rw [hcommit] at h
    cases h
  | some val =>
    rw [hcommit] at h
    dsimp only at h
    rw [hinner val hcommit, if_neg Bool.false_ne_true, mapFunctionalAdd, ha, if_pos rfl,
      Option.some.injEq] at h
    rw [← h]
    rfl

/-- Where the indices lead to a place a value is stored there. -/
lemma notNull_of_reaches {arg : List YCPValue} (hreach : Reaches current arg)
    (hvalue : value.isNull = false) (h : bracketCommit current arg value = some r) : r.isNull = false := by
  induction arg generalizing current r with
  | nil =>
    unfold bracketCommit at h
    rw [Option.some.injEq] at h
    rwa [← h]
  | cons a rest ih =>
    cases current with
    | list l =>
      cases a with
      | integer j =>
        have hrest := ((reaches_element rfl).mp hreach).2
        exact notNull_element rfl hvalue (fun val hcommit => ih hrest hcommit) h
      | _ => simp [Reaches] at hreach
    | term name l =>
      cases a with
      | integer j =>
        have hrest := ((reaches_element rfl).mp hreach).2
        exact notNull_element rfl hvalue (fun val hcommit => ih hrest hcommit) h
      | _ => simp [Reaches] at hreach
    | map m =>
      rw [Reaches] at hreach
      exact notNull_entry hreach.1 hvalue (fun val hcommit => ih hreach.2 hcommit) h
    | _ => simp [Reaches] at hreach

end

/-! ### The check and the values -/

section

variable {t rhs cur paramType : YType} {params : List YType} {m : Int}

/-- Where the parser goes on with the parameters, or ends at a type that is no list and no map. -/
def bracketRest (cur : YType) (params : List YType) : Option YType :=
  if isList cur || isMap cur then bracketTarget cur params else some cur

lemma bracketTarget_cons (t p : YType) (params : List YType) :
    bracketTarget t (p :: params) = (bracketType t (bracketParam p)).bind fun cur => bracketRest cur params := by
  rw [bracketTarget]
  cases bracketType t (bracketParam p) <;> rfl

/-- The parser ends at a type that is no list and no map, where nothing more has to fit. -/
lemma fits_of_stop {type : YType} {indices : List YCPValue} {v : YCPValue}
    (hstop : (isList type || isMap type) = false) (hexact : assignsExactly type params rhs = true)
    (hindices : List.Forall₂ (fun p a => (bracketParam p).Takes a) params indices)
    (hv : rhs.matchesExactly type = true → type.Takes v) : Fits type indices v := by
  cases hindices with
  | nil =>
    have htakes : type.Takes v := hv (by cases type <;> exact hexact)
    cases type <;> exact htakes
  | cons _ _ =>
    cases type with
    | listT s q => cases hstop
    | mapT k s q => cases hstop
    | _ => trivial

/-- A parameter that matches the key type without a conversion stands for keys of it. -/
lemma takes_of_bracketType {k type p s : YType} {q : Qualifiers} {a : YCPValue}
    (htype : bracketType (.mapT k s q) p = some type) (hexact : p.matchesExactly k = true)
    (ha : p.Takes a) : k.Takes a := by
  rw [bracketType] at htype
  cases hmatch : p.matchType k with
  | none =>
    rw [hmatch] at htype
    cases htype
  | some m =>
    rw [hmatch] at htype
    dsimp only at htype
    split at htype
    · cases htype
    next hm =>
      have hle := neg_one_le_matchType hmatch
      exact takes_of_match hmatch (by omega) hexact ha

lemma bracketType_listT {type p s : YType} {q : Qualifiers}
    (htype : bracketType (.listT s q) p = some type) : type = s := by
  rw [bracketType] at htype
  split at htype
  · exact (Option.some.inj htype).symm
  · cases htype

lemma bracketType_mapT {k type p s : YType} {q : Qualifiers}
    (htype : bracketType (.mapT k s q) p = some type) : type = s := by
  rw [bracketType] at htype
  split at htype
  · cases htype
  split at htype
  · cases htype
  · exact (Option.some.inj htype).symm

/-- Without conversions what the parser accepts fits. -/
lemma fits_of_bracketTarget (htarget : bracketTarget t params = some cur)
    (hexact : assignsExactly t params rhs = true) {indices : List YCPValue} {v : YCPValue}
    (hindices : List.Forall₂ (fun p a => (bracketParam p).Takes a) params indices)
    (hv : rhs.matchesExactly cur = true → cur.Takes v) : Fits t indices v := by
  induction params generalizing t indices with
  | nil =>
    cases hindices
    rw [bracketTarget, Option.some.injEq] at htarget
    subst htarget
    have htakes : t.Takes v := hv (by cases t <;> exact hexact)
    cases t <;> exact htakes
  | cons p params ih =>
    cases hindices with
    | @cons _ a _ rest ha hrest =>
      rw [bracketTarget_cons, Option.bind_eq_some_iff] at htarget
      obtain ⟨type, htype, htarget⟩ := htarget
      have hfits (hexact : assignsExactly type params rhs = true) : Fits type rest v := by
        unfold bracketRest at htarget
        by_cases hstructured : (isList type || isMap type) = true
        · rw [if_pos hstructured] at htarget
          exact ih htarget hexact hrest
        · rw [if_neg hstructured, Option.some.injEq] at htarget
          subst htarget
          exact fits_of_stop (Bool.not_eq_true _ ▸ hstructured) hexact hrest hv
      cases t with
      | listT s q =>
        rw [assignsExactly, Bool.or_eq_true, ← bracketType_listT htype] at hexact
        rw [Fits, ← bracketType_listT htype]
        exact hexact.imp id hfits
      | mapT k s q =>
        rw [assignsExactly, Bool.or_eq_true, Bool.and_eq_true, ← bracketType_mapT htype] at hexact
        rw [Fits, ← bracketType_mapT htype]
        exact hexact.imp id fun h => ⟨takes_of_bracketType htype h.1 ha, hfits h.2⟩
      | _ => trivial

/-- An accepted assignment: the type at the end, and how the right-hand side matches it. -/
lemma checkBracketAssign_eq_some {declared : YType} {target : Option YType}
    (h : checkBracketAssign declared params rhs = some target) :
    ∃ cur m, bracketTarget declared params = some cur ∧ rhs.matchType cur = some m ∧
      (0 < m ∨ m = 0 ∧ target = none) := by
  unfold checkBracketAssign at h
  split at h
  · cases h
  split at h
  · cases h
  split at h
  · cases h
  cases htarget : bracketTarget declared params with
  | none =>
    rw [htarget] at h
    cases h
  | some cur =>
    rw [htarget] at h
    dsimp only at h
    cases hmatch : rhs.matchType cur with
    | none =>
      rw [hmatch] at h
      cases h
    | some m =>
      rw [hmatch] at h
      dsimp only at h
      refine ⟨cur, m, rfl, hmatch, ?_⟩
      split at h
      next hm => exact .inl hm
      next =>
        split at h
        next hm => exact .inr ⟨hm, (Option.some.inj h).symm⟩
        next => cases h

end

/-! ### The assignment -/

section

variable {P : Program} {declared rhs : YType} {params : List YType} {target : Option YType}
  {var value newvalue result : YCPValue} {indices : List YCPValue} {s s' : State}

lemma isNull_stored (v : YCPValue) : (stored v).isNull = false := by
  cases v <;> rfl

lemma takes_stored {t : YType} {v : YCPValue} (h : v.isNull = true ∨ t.Takes v) : t.Takes (stored v) := by
  unfold stored
  split
  · exact takes_of_isVoid rfl
  next hnull => exact h.resolve_left hnull

/-- Without conversions the value that is assigned is of the type at the end. -/
lemma fits_of_checkBracketAssign (hcheck : checkBracketAssign declared params rhs = some target)
    (hexact : assignsExactly declared params rhs = true)
    (hindices : List.Forall₂ (fun p a => (bracketParam p).Takes a) params indices)
    (hvalue : value.isNull = true ∨ rhs.Takes value)
    (hnew : assignedValue P target value s = .ok newvalue s') : Fits declared indices (stored newvalue) := by
  obtain ⟨cur, m, htarget, hmatch, hm⟩ := checkBracketAssign_eq_some hcheck
  refine fits_of_bracketTarget htarget hexact hindices fun hrhs => ?_
  rcases hm with hpos | ⟨hzero, rfl⟩
  · rw [not_matchesExactly_of_pos hmatch hpos] at hrhs
    cases hrhs
  · have hsame : value = newvalue := by
      cases hnew
      rfl
    rw [← hsame]
    refine takes_stored (hvalue.imp id fun htakes => ?_)
    exact takes_of_match hmatch (by omega) hrhs htakes

end

/-- `map <string, list <integer>>` -/
def mapOfLists : YType :=
  .mapT (.base .stringT unqualified) (.listT (.base .integerT unqualified) unqualified) unqualified

/-- `list <list <float>>`, and the type of `[1]`. -/
def listsOfFloats : YType := .listT (.listT (.base .floatT unqualified) unqualified) unqualified

def listOfIntegers : YType := .listT (.base .integerT unqualified) unqualified

end YastCore.Interp
