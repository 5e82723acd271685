import YastCore.Value.WellFormed
import YastCore.Value.WideOrder

/-!
# Values that compare equal

The comparison does not see how the components of a path are quoted. A value without null handles that
anything compares equal to compares equal to itself; one that holds a code block or a reference does not.
-/

namespace YastCore.YCPValue

open KeyOrder

/-! ### Quoting -/

lemma isNull_quoteAll (v : YCPValue) : v.quoteAll.isNull = v.isNull := by cases v <;> rfl

lemma valuetype_quoteAll (v : YCPValue) : v.quoteAll.valuetype = v.valuetype := by cases v <;> rfl

lemma compareElements_quoteAll {l : List YCPValue} (h : ∀ v ∈ l, ∀ w, compare v.quoteAll w.quoteAll = compare v w)
    (n : Nat) (m : List YCPValue) :
    compareElements n (quoteAllList l) (quoteAllList m) = compareElements n l m := by
  induction l generalizing n m with
  | nil => cases n <;> simp [quoteAllList, compareElements]
  | cons v l ih =>
    cases n with
    | zero => simp [compareElements]
    | succ n =>
      cases m with
      | nil => simp [quoteAllList, compareElements]
      | cons w m =>
        rw [quoteAllList, quoteAllList, compareElements, compareElements, h v List.mem_cons_self w,
          ih fun v hv => h v (List.mem_cons_of_mem _ hv)]

lemma compareEntries_quoteAll {l : List (YCPValue × YCPValue)}
    (h : ∀ e ∈ l, (∀ w, compare e.1.quoteAll w.quoteAll = compare e.1 w) ∧
      ∀ w, compare e.2.quoteAll w.quoteAll = compare e.2 w) (m : List (YCPValue × YCPValue)) :
    compareEntries (quoteAllMap l) (quoteAllMap m) = compareEntries l m := by
  induction l generalizing m with
  | nil => cases m <;> simp [quoteAllMap, compareEntries]
  | cons e l ih =>
    cases m with
    | nil => simp [quoteAllMap, compareEntries]
    | cons e' m =>
      obtain ⟨k, v⟩ := e
      obtain ⟨k', v'⟩ := e'
      obtain ⟨hk, hv⟩ := h (k, v) List.mem_cons_self
      rw [quoteAllMap, quoteAllMap, compareEntries, compareEntries, hk k', hv v',
        ih fun e he => h e (List.mem_cons_of_mem _ he)]

lemma comparePathLoop_map {f : PathComponent → PathComponent} (hf : ∀ c, (f c).component = c.component)
    (p q : List PathComponent) : comparePathLoop (p.map f) (q.map f) = comparePathLoop p q := by
  induction p generalizing q with
  | nil => cases q <;> rfl
  | cons c p ih =>
    cases q with
    | nil => rfl
    | cons d q =>
      rw [List.map_cons, List.map_cons, comparePathLoop, comparePathLoop, hf, hf, ih]

lemma comparePath_map {f : PathComponent → PathComponent} (hf : ∀ c, (f c).component = c.component)
    (p q : List PathComponent) : comparePath (p.map f) (q.map f) = comparePath p q := by
  rw [comparePath, comparePath, ← List.map_take, comparePathLoop_map hf, List.length_map, List.length_map]

lemma length_quoteAllList (l : List YCPValue) : (quoteAllList l).length = l.length := by
  rw [quoteAllList_eq_map, List.length_map]

lemma length_quoteAllMap (m : List (YCPValue × YCPValue)) : (quoteAllMap m).length = m.length := by
  rw [quoteAllMap_eq_map, List.length_map]

lemma compare_null_left (w : YCPValue) : compare null w = none := by rw [compare.eq_def]; rfl

lemma compare_null_right {v : YCPValue} (hv : v.isNull = false) : compare v null = some .eq := by
  rw [compare.eq_def, hv]
  rfl

lemma compare_path (p q : List PathComponent) : compare (path p) (path q) = comparePath p q := by
  simp [compare, isNull, valuetype]

/-- Values of different types, and the null handle. -/
lemma compare_quoteAll_of_ne {v w : YCPValue} (hv : v.isNull = false) (h : w.valuetype ≠ v.valuetype) :
    compare v.quoteAll w.quoteAll = compare v w := by
  have hv' : v.quoteAll.isNull = false := by rw [isNull_quoteAll, hv]
  by_cases hw : w.isNull = true
  · obtain rfl := eq_null_of_isNull hw
    rw [compare_null_right hv]
    exact compare_null_right hv'
  · rw [Bool.not_eq_true] at hw
    have hw' : w.quoteAll.isNull = false := by rw [isNull_quoteAll, hw]
    rw [compare_of_valuetype_ne hv hw (Ne.symm h),
      compare_of_valuetype_ne hv' hw' (by rw [valuetype_quoteAll, valuetype_quoteAll]; exact Ne.symm h),
      valuetype_quoteAll, valuetype_quoteAll]

/-- A type whose values hold no paths. -/
lemma compare_quoteAll_plain {v : YCPValue} (hv : v.isNull = false) (hq : v.quoteAll = v)
    (h : ∀ w : YCPValue, w.valuetype = v.valuetype → w.quoteAll = w) (w : YCPValue) :
    compare v.quoteAll w.quoteAll = compare v w := by
  by_cases hw : w.valuetype = v.valuetype
  · rw [hq, h w hw]
  · exact compare_quoteAll_of_ne hv hw

/-- The comparison sees no quotes. -/
theorem compare_quoteAll (v w : YCPValue) : compare v.quoteAll w.quoteAll = compare v w := by
  induction v using induct generalizing w with
  | null =>
    have hnull : quoteAll null = null := rfl
    rw [hnull, compare_null_left, compare_null_left]
  | path p =>
    by_cases h : w.valuetype = 6
    · cases w <;> simp [valuetype] at h
      rename_i q
      rw [quoteAll, quoteAll, compare_path, compare_path]
      refine comparePath_map ?_ p q
      intro c
      rfl
    · exact compare_quoteAll_of_ne rfl h
  | list l ih =>
    by_cases h : w.valuetype = 8
    · cases w <;> simp [valuetype] at h
      rename_i m
      simp only [quoteAll, compare_list, length_quoteAllList, compareElements_quoteAll ih]
    · exact compare_quoteAll_of_ne rfl h
  | term n l ih =>
    by_cases h : w.valuetype = 9
    · cases w <;> simp [valuetype] at h
      rename_i n' m
      simp only [quoteAll, compare_term, length_quoteAllList, compareElements_quoteAll ih]
    · exact compare_quoteAll_of_ne rfl h
  | map m ih =>
    by_cases h : w.valuetype = 10
    · cases w <;> simp [valuetype] at h
      rename_i m'
      simp only [quoteAll, compare_map, length_quoteAllMap, compareEntries_quoteAll ih]
    · exact compare_quoteAll_of_ne rfl h
  | void | boolean | integer | string | byteblock | symbol | code | ret | brk | entry | error | reference =>
    exact compare_quoteAll_plain rfl rfl (fun w hw => by cases w <;> simp_all [valuetype, quoteAll]) w

lemma compare_congr {v v' w w' : YCPValue} (hv : v.quoteAll = v'.quoteAll) (hw : w.quoteAll = w'.quoteAll) :
    compare v w = compare v' w' := by
  rw [← compare_quoteAll v w, hv, hw, compare_quoteAll]

/-! ### Equality with itself -/

lemma valuetype_of_eq {x v : YCPValue} (hv : v.isNull = false) (h : compare x v = some .eq) :
    x.valuetype = v.valuetype := by
  by_contra hne
  by_cases hx : x.isNull = true
  · rw [eq_null_of_isNull hx, compare_null_left] at h
    cases h
  · rw [compare_of_valuetype_ne (by simpa using hx) hv hne] at h
    split at h <;> cases h

lemma compareElements_self {l m : List YCPValue} {n : Nat} (hl : n ≤ l.length)
    (hself : ∀ w ∈ m, ∀ x, compare x w = some .eq → compare w w = some .eq)
    (h : compareElements n l m = some .eq) : compareElements n m m = some .eq := by
  induction m generalizing n l with
  | nil => cases n <;> simp [compareElements]
  | cons w m ih =>
    cases n with
    | zero => simp [compareElements]
    | succ n =>
      cases l with
      | nil => simp at hl
      | cons x l =>
        rw [compareElements] at h
        cases hx : compare x w with
        | none => simp [hx] at h
        | some o =>
          cases o with
          | eq =>
            rw [hx] at h
            rw [compareElements, hself w List.mem_cons_self x hx]
            exact ih (by simpa using hl) (fun w hw => hself w (List.mem_cons_of_mem _ hw)) h
          | lt => simp [hx] at h
          | gt => simp [hx] at h

lemma compareEntries_self {l m : List (YCPValue × YCPValue)}
    (hself : ∀ e ∈ m, (∀ x, compare x e.1 = some .eq → compare e.1 e.1 = some .eq) ∧
      ∀ x, compare x e.2 = some .eq → compare e.2 e.2 = some .eq)
    (h : compareEntries l m = some .eq) : compareEntries m m = some .eq := by
  induction m generalizing l with
  | nil => simp [compareEntries]
  | cons e m ih =>
    obtain ⟨k, v⟩ := e
    cases l with
    | nil => simp [compareEntries] at h
    | cons e' l =>
      obtain ⟨k', v'⟩ := e'
      obtain ⟨hk, hv⟩ := hself (k, v) List.mem_cons_self
      rw [compareEntries_cons, andThen_eq_eq_iff, andThen_eq_eq_iff] at h ⊢
      obtain ⟨hkeys, hvalues, hrest⟩ := h
      exact ⟨hk k' hkeys, hv v' hvalues, ih (fun e he => hself e (List.mem_cons_of_mem _ he)) hrest⟩

/-- Lists that are equal have equal sizes, and the elements they are compared by are equal. -/
lemma compareSized_eq_iff {size size' : Int} {elements : Nat → Option Ordering}
    (h0 : elements 0 = some .eq) :
    compareSized size size' elements = some .eq ↔ size = size' ∧ elements size.toNat = some .eq := by
  by_cases hs : size = 0
  · by_cases hs' : size' = 0
    · simp [compareSized, hs, hs', h0]
    · simp [compareSized, hs, hs', Ne.symm hs']
  · by_cases hs' : size' = 0
    · simp [compareSized, hs, hs']
    · by_cases heq : size = size'
      · subst heq
        have hmin : min size size = size := Int.min_self size
        rw [compareSized, if_neg (by omega), if_neg hs, if_neg hs', hmin]
        cases elements size.toNat with
        | none => simp
        | some o => cases o <;> simp
      · rw [compareSized, if_neg (by omega), if_neg hs, if_neg hs']
        cases elements (min size size').toNat with
        | none => simp [heq]
        | some o =>
          cases o with
          | eq =>
            simp only [heq, if_false, false_and, iff_false]
            split <;> simp
          | lt => simp [heq]
          | gt => simp [heq]

lemma listAnswer_self {l m : List YCPValue}
    (hself : ∀ w ∈ m, ∀ x, compare x w = some .eq → compare w w = some .eq)
    (h : listAnswer l m = some .eq) : listAnswer m m = some .eq := by
  have h0 (l m : List YCPValue) : compareElements 0 l m = some .eq := by rw [compareElements.eq_def]
  rw [listAnswer, compareList_eq_sized] at h ⊢
  obtain ⟨hsize, helements⟩ := (compareSized_eq_iff (h0 l m)).mp h
  refine (compareSized_eq_iff (h0 m m)).mpr ⟨rfl, ?_⟩
  rw [← hsize]
  have hle := toInt32_le l.length
  exact compareElements_self (by omega) hself helements

lemma comparePathLoop_ne_eq (p q : List PathComponent) : comparePathLoop p q ≠ some .eq := by
  induction p generalizing q with
  | nil => simp [comparePathLoop]
  | cons c p ih =>
    cases q with
    | nil => simp [comparePathLoop]
    | cons d q =>
      rw [comparePathLoop]
      cases compareText c.component d.component with
      | eq => exact ih q
      | lt => simp
      | gt => simp

lemma comparePathLoop_self (p : List PathComponent) : comparePathLoop p p = none := by
  induction p with
  | nil => rfl
  | cons c p ih => rw [comparePathLoop, (compareText_eq_iff _ _).mpr rfl, ih]

/-- Paths that are equal have fewer components than the counter has values. -/
lemma comparePath_self {p q : List PathComponent} (h : comparePath p q = some .eq) :
    comparePath q q = some .eq := by
  rw [comparePath] at h
  cases hloop : comparePathLoop (p.take (2 ^ 32)) q with
  | some o =>
    rw [hloop, Option.some.injEq] at h
    exact absurd (h ▸ hloop) (comparePathLoop_ne_eq _ _)
  | none =>
    rw [hloop] at h
    by_cases hlen : p.length < 2 ^ 32
    · rw [if_pos hlen, Option.some.injEq, Nat.compare_eq_eq] at h
      rw [comparePath, List.take_of_length_le (by omega), comparePathLoop_self]
      rw [h] at hlen
      rw [if_pos hlen, Nat.compare_eq_eq.mpr rfl]
    · rw [if_neg hlen] at h
      cases h

lemma wellFormed_of_isMapKey {k : YCPValue} (hk : k.isMapKey = true) : WellFormed k := by
  cases k <;> first | exact .plain rfl rfl | simp [isMapKey] at hk

/-- A value that something is equal to is equal to itself. -/
theorem compare_self_of_eq {v : YCPValue} (hv : WellFormed v) (x : YCPValue) (h : compare x v = some .eq) :
    compare v v = some .eq := by
  induction v using induct generalizing x with
  | null => exact absurd hv.notNull (by simp [isNull])
  | boolean b => cases b <;> rfl
  | integer i => simp [compare, isNull, valuetype]
  | string t => simp [compare, isNull, valuetype, (compareText_eq_iff t t).mpr rfl]
  | byteblock b => simp [compare, isNull, valuetype, compareByteblock]
  | symbol t => simp [compare, isNull, valuetype, (compareText_eq_iff t t).mpr rfl]
  | path p =>
    have htype := valuetype_of_eq rfl h
    cases x <;> simp [valuetype] at htype
    rw [compare_path] at h ⊢
    exact comparePath_self h
  | list l ih =>
    have htype := valuetype_of_eq rfl h
    cases x <;> simp [valuetype] at htype
    rw [compare_list] at h ⊢
    exact listAnswer_self (fun w hw x => ih w hw (hv.elements w hw) x) h
  | term n l ih =>
    have htype := valuetype_of_eq rfl h
    cases x <;> simp [valuetype] at htype
    rename_i n' m
    rw [compare_term] at h ⊢
    rw [if_pos rfl]
    by_cases hn : n' = n
    · rw [if_pos hn] at h
      exact listAnswer_self (fun w hw x => ih w hw (hv.args w hw) x) h
    · rw [if_neg hn] at h
      split at h <;> cases h
  | map m ih =>
    have htype := valuetype_of_eq rfl h
    cases x <;> simp [valuetype] at htype
    rename_i m'
    rw [compare_map, compareMap_eq_sized] at h ⊢
    have hentries : ∀ e ∈ m, (∀ x, compare x e.1 = some .eq → compare e.1 e.1 = some .eq) ∧
        ∀ x, compare x e.2 = some .eq → compare e.2 e.2 = some .eq := by
      intro e he
      obtain ⟨hkey, hvalue⟩ := hv.entries e he
      exact ⟨fun x => (ih e he).1 (wellFormed_of_isMapKey hkey) x, fun x => (ih e he).2 hvalue x⟩
    by_cases h0 : toInt32 m.length = 0
    · rw [compareMapSized, if_pos ⟨h0, h0⟩]
    · rw [compareMapSized_self h0]
      have hsize : toInt32 m'.length = toInt32 m.length := by
        by_contra hne
        rw [compareMapSized] at h
        split at h
        · next hzero => exact h0 hzero.2
        · split at h
          · cases h
          · split at h
            · cases h
            · omega
      rw [hsize, compareMapSized_self h0] at h
      exact compareEntries_self hentries h
  | void | ret | brk | entry | error => rfl
  | code | reference =>
    have htype := valuetype_of_eq rfl h
    cases x <;> simp [valuetype] at htype
    simp [compare, isNull, valuetype] at h

/-! ### What a program can store in a list -/

mutual

/-- Data values, code blocks, references and the value of `return;`, and containers of such values. -/
def isStorable : YCPValue → Bool
  | list l => isStorableList l
  | term _ l => isStorableList l
  | map m => isStorableMap m
  | null => false
  | brk => false
  | entry _ => false
  | error => false
  | _ => true

def isStorableList : List YCPValue → Bool
  | [] => true
  | v :: l => isStorable v && isStorableList l

def isStorableMap : List (YCPValue × YCPValue) → Bool
  | [] => true
  | (k, v) :: m => k.isMapKey && isStorable v && isStorableMap m

end

mutual

/-- A code block or a reference is in the value, at any depth. -/
def holdsCode : YCPValue → Bool
  | code _ => true
  | reference _ => true
  | list l => holdsCodeList l
  | term _ l => holdsCodeList l
  | map m => holdsCodeMap m
  | _ => false

def holdsCodeList : List YCPValue → Bool
  | [] => false
  | v :: l => holdsCode v || holdsCodeList l

def holdsCodeMap : List (YCPValue × YCPValue) → Bool
  | [] => false
  | (_, v) :: m => holdsCode v || holdsCodeMap m

end

/-- The values a program can store whose containers have at most `n` elements. -/
def StorableUpTo (n : Nat) (v : YCPValue) : Prop := v.isStorable = true ∧ v.sizesAtMost n = true

lemma isStorableList_iff {l : List YCPValue} : isStorableList l = true ↔ ∀ v ∈ l, isStorable v = true := by
  induction l with
  | nil => simp [isStorableList]
  | cons v l ih => simp [isStorableList, ih]

lemma isStorableMap_iff {m : List (YCPValue × YCPValue)} :
    isStorableMap m = true ↔ ∀ e ∈ m, e.1.isMapKey = true ∧ isStorable e.2 = true := by
  induction m with
  | nil => simp [isStorableMap]
  | cons e m ih => simp [isStorableMap, ih, and_assoc]

lemma storableUpTo_list {n : Nat} {l : List YCPValue} (h : StorableUpTo n (list l)) :
    l.length ≤ n ∧ ∀ v ∈ l, StorableUpTo n v := by
  simp only [StorableUpTo, isStorable, sizesAtMost, isStorableList_iff, sizesAtMostList_iff, Bool.and_eq_true,
    decide_eq_true_eq] at h
  exact ⟨h.2.1, fun v hv => ⟨h.1 v hv, h.2.2 v hv⟩⟩

lemma storableUpTo_term {n : Nat} {t : Text} {l : List YCPValue} (h : StorableUpTo n (term t l)) :
    l.length ≤ n ∧ ∀ v ∈ l, StorableUpTo n v := by
  simp only [StorableUpTo, isStorable, sizesAtMost, isStorableList_iff, sizesAtMostList_iff, Bool.and_eq_true,
    decide_eq_true_eq] at h
  exact ⟨h.2.1, fun v hv => ⟨h.1 v hv, h.2.2 v hv⟩⟩

lemma storableUpTo_map {n : Nat} {m : List (YCPValue × YCPValue)} (h : StorableUpTo n (map m)) :
    m.length ≤ n ∧ ∀ e ∈ m, e.1.isMapKey = true ∧ StorableUpTo n e.2 := by
  simp only [StorableUpTo, isStorable, sizesAtMost, isStorableMap_iff, sizesAtMostMap_iff, Bool.and_eq_true,
    decide_eq_true_eq] at h
  exact ⟨h.2.1, fun e he => ⟨(h.1 e he).1, (h.1 e he).2, (h.2.2 e he).2⟩⟩

lemma wellFormed_of_isStorable {v : YCPValue} (h : v.isStorable = true) : WellFormed v := by
  induction v using induct with
  | list l ih =>
    rw [isStorable, isStorableList_iff] at h
    exact .list fun v hv => ih v hv (h v hv)
  | term t l ih =>
    rw [isStorable, isStorableList_iff] at h
    exact .term fun v hv => ih v hv (h v hv)
  | map m ih =>
    rw [isStorable, isStorableMap_iff] at h
    exact .map (fun e he => (h e he).1) fun e he => (ih e he).2 (h e he).2
  | null | brk | entry | error => simp [isStorable] at h
  | _ => exact .plain rfl rfl

lemma holdsCode_quoteAll (v : YCPValue) : v.quoteAll.holdsCode = v.holdsCode := by
  have hlist (l : List YCPValue) (h : ∀ v ∈ l, v.quoteAll.holdsCode = v.holdsCode) :
      holdsCodeList (quoteAllList l) = holdsCodeList l := by
    induction l with
    | nil => rfl
    | cons v l ih =>
      rw [quoteAllList, holdsCodeList, holdsCodeList, h v List.mem_cons_self,
        ih fun w hw => h w (List.mem_cons_of_mem v hw)]
  induction v using induct with
  | list l ih => exact hlist l ih
  | term t l ih => exact hlist l ih
  | map m ih =>
    rw [quoteAll, holdsCode, holdsCode]
    induction m with
    | nil => rfl
    | cons e m ihm =>
      rw [quoteAllMap, holdsCodeMap, holdsCodeMap, (ih e List.mem_cons_self).2,
        ihm fun e' he' => ih e' (List.mem_cons_of_mem e he')]
  | _ => rfl

/-! ### What the comparison tells below the size limit -/

/-- The comparison answers, and it finds equal what is the same and holds no code. -/
def Tells (answer : Option Ordering) (same codeFree : Prop) : Prop :=
  ∃ o, answer = some o ∧ (o = .eq ↔ same ∧ codeFree)

lemma tells_of_ne {v w : YCPValue} {codeFree : Prop} (hv : v.isNull = false) (hw : w.isNull = false)
    (h : w.valuetype ≠ v.valuetype) : Tells (compare v w) (v.quoteAll = w.quoteAll) codeFree := by
  refine ⟨_, compare_of_valuetype_ne hv hw (Ne.symm h), ?_⟩
  have hne : v.quoteAll ≠ w.quoteAll := by
    intro heq
    rw [← valuetype_quoteAll v, ← valuetype_quoteAll w, heq] at h
    exact h rfl
  simp only [hne, false_and, iff_false]
  split <;> simp

lemma tells_andThen {answer next : Option Ordering} {same same' free free' : Prop} (h : Tells answer same free)
    (hnext : Tells next same' free') : Tells (andThen answer next) (same ∧ same') (free ∧ free') := by
  obtain ⟨o, rfl, ho⟩ := h
  obtain ⟨o', rfl, ho'⟩ := hnext
  by_cases heq : o = .eq
  · subst heq
    refine ⟨o', rfl, ?_⟩
    have hboth := ho.mp rfl
    rw [ho']
    tauto
  · refine ⟨o, andThen_of_ne heq _, iff_of_false heq ?_⟩
    have hnot := fun h => heq (ho.mpr h)
    tauto

lemma elements_tell {l m : List YCPValue} (h : ∀ v ∈ l, ∀ w ∈ m,
      Tells (compare v w) (v.quoteAll = w.quoteAll) (v.holdsCode = false)) :
    Tells (elementsVerdict l m) (quoteAllList l = quoteAllList m) (holdsCodeList l = false) := by
  induction l generalizing m with
  | nil =>
    cases m with
    | nil => exact ⟨.eq, rfl, by simp [quoteAllList, holdsCodeList]⟩
    | cons w m => exact ⟨.lt, rfl, by simp [quoteAllList]⟩
  | cons v l ih =>
    cases m with
    | nil => exact ⟨.gt, rfl, by simp [quoteAllList]⟩
    | cons w m =>
      have hboth := tells_andThen (h v List.mem_cons_self w List.mem_cons_self)
        (ih (m := m) fun v hv w hw => h v (List.mem_cons_of_mem _ hv) w (List.mem_cons_of_mem _ hw))
      rw [← elementsVerdict_cons] at hboth
      simpa [quoteAllList, holdsCodeList] using hboth

lemma entries_tell {l m : List (YCPValue × YCPValue)} (hlen : l.length = m.length)
    (h : ∀ e ∈ l, ∀ e' ∈ m, Tells (compare e.1 e'.1) (e.1.quoteAll = e'.1.quoteAll) True ∧
      Tells (compare e.2 e'.2) (e.2.quoteAll = e'.2.quoteAll) (e.2.holdsCode = false)) :
    Tells (compareEntries l m) (quoteAllMap l = quoteAllMap m) (holdsCodeMap l = false) := by
  induction l generalizing m with
  | nil =>
    cases m with
    | nil => exact ⟨.eq, by simp [compareEntries], by simp [quoteAllMap, holdsCodeMap]⟩
    | cons e' m => simp at hlen
  | cons e l ih =>
    cases m with
    | nil => simp at hlen
    | cons e' m =>
      obtain ⟨k, v⟩ := e
      obtain ⟨k', v'⟩ := e'
      obtain ⟨hk, hv⟩ := h _ List.mem_cons_self _ List.mem_cons_self
      have htail := ih (m := m) (by simpa using hlen) fun e he e' he' =>
        h e (List.mem_cons_of_mem _ he) e' (List.mem_cons_of_mem _ he')
      have hall := tells_andThen hk (tells_andThen hv htail)
      rw [← compareEntries_cons] at hall
      simpa [quoteAllMap, holdsCodeMap, and_assoc] using hall

lemma tells_of_data {n : Nat} (hn : n < 2 ^ 31) {v w : YCPValue} (hv : DataUpTo n v) (hw : DataUpTo n w)
    {codeFree : Prop} (hfree : codeFree) : Tells (compare v w) (v.quoteAll = w.quoteAll) codeFree := by
  refine ⟨_, compare_eq_lex hn hv hw, ?_⟩
  rw [lex_eq_iff, orderKey_eq_iff hv.1 hw.1, and_iff_left hfree]

/-- A type whose values are data values. -/
lemma tells_plain {n : Nat} (hn : n < 2 ^ 31) {v w : YCPValue} (hv : StorableUpTo n v) (hw : StorableUpTo n w)
    (hfree : v.holdsCode = false)
    (hdata : ∀ u : YCPValue, u.valuetype = v.valuetype → StorableUpTo n u → DataUpTo n u) :
    Tells (compare v w) (v.quoteAll = w.quoteAll) (v.holdsCode = false) := by
  by_cases h : w.valuetype = v.valuetype
  · exact tells_of_data hn (hdata v rfl hv) (hdata w h hw) hfree
  · exact tells_of_ne (wellFormed_of_isStorable hv.1).notNull (wellFormed_of_isStorable hw.1).notNull h

lemma tells_list {n : Nat} (hn : n < 2 ^ 31) {l m : List YCPValue} (hl : l.length ≤ n) (hm : m.length ≤ n)
    (h : ∀ v ∈ l, ∀ w ∈ m, Tells (compare v w) (v.quoteAll = w.quoteAll) (v.holdsCode = false)) :
    Tells (listAnswer l m) (quoteAllList l = quoteAllList m) (holdsCodeList l = false) := by
  have hverdict : listAnswer l m = elementsVerdict l m := by
    rw [listAnswer, compareList_small (by omega) (by omega) (by rw [compareElements.eq_def])]
    rfl
  rw [hverdict]
  exact elements_tell h

/-- Below the size limit the comparison always answers, and it takes two values for equal exactly if they are
the same and hold no code block and no reference. -/
theorem compare_tells {n : Nat} (hn : n < 2 ^ 31) (v w : YCPValue) (hv : StorableUpTo n v)
    (hw : StorableUpTo n w) : Tells (compare v w) (v.quoteAll = w.quoteAll) (v.holdsCode = false) := by
  have hwnull : w.isNull = false := (wellFormed_of_isStorable hw.1).notNull
  induction v using induct generalizing w with
  | null | brk | entry | error => simp [StorableUpTo, isStorable] at hv
  | list l ih =>
    by_cases h : w.valuetype = 8
    · cases w <;> simp [valuetype] at h
      rename_i m
      obtain ⟨hl, hlv⟩ := storableUpTo_list hv
      obtain ⟨hm, hmw⟩ := storableUpTo_list hw
      have hlist := tells_list hn hl hm fun v hvl w hwm =>
        ih v hvl w (hlv v hvl) (hmw w hwm) (wellFormed_of_isStorable (hmw w hwm).1).notNull
      rw [compare_list]
      simpa [quoteAll, holdsCode] using hlist
    · exact tells_of_ne rfl hwnull h
  | term t l ih =>
    by_cases h : w.valuetype = 9
    · cases w <;> simp [valuetype] at h
      rename_i t' m
      obtain ⟨hl, hlv⟩ := storableUpTo_term hv
      obtain ⟨hm, hmw⟩ := storableUpTo_term hw
      have hlist := tells_list hn hl hm fun v hvl w hwm =>
        ih v hvl w (hlv v hvl) (hmw w hwm) (wellFormed_of_isStorable (hmw w hwm).1).notNull
      rw [compare_term]
      by_cases ht : t = t'
      · rw [if_pos ht]
        simpa [quoteAll, holdsCode, ht] using hlist
      · rw [if_neg ht]
        refine ⟨_, rfl, ?_⟩
        simp only [quoteAll, term.injEq, ht, false_and, iff_false]
        split <;> simp
    · exact tells_of_ne rfl hwnull h
  | map m ih =>
    by_cases h : w.valuetype = 10
    · cases w <;> simp [valuetype] at h
      rename_i m'
      obtain ⟨hm, hmv⟩ := storableUpTo_map hv
      obtain ⟨hm', hmw⟩ := storableUpTo_map hw
      rw [compare_map, compareMap_small (by omega) (by omega) (fun h h' => by
        rw [List.length_eq_zero_iff.mp h, List.length_eq_zero_iff.mp h']; simp [compareEntries])]
      by_cases hlen : m.length = m'.length
      · rw [if_pos hlen]
        have hentries := entries_tell hlen fun e he e' he' =>
          ⟨tells_of_data (n := 0) (by decide) (dataUpTo_of_isMapKey (hmv e he).1)
              (dataUpTo_of_isMapKey (hmw e' he').1) trivial,
            (ih e he).2 e'.2 (hmv e he).2 (hmw e' he').2 (wellFormed_of_isStorable (hmw e' he').2.1).notNull⟩
        simpa [quoteAll, holdsCode] using hentries
      · rw [if_neg hlen]
        refine ⟨_, rfl, ?_⟩
        have hne : quoteAllMap m ≠ quoteAllMap m' := by
          intro heq
          have hlength := congrArg List.length heq
          rw [length_quoteAllMap, length_quoteAllMap] at hlength
          exact hlen hlength
        simp [quoteAll, hne, hlen]
    · exact tells_of_ne rfl hwnull h
  | code c =>
    by_cases h : w.valuetype = 11
    · cases w <;> simp [valuetype] at h
      exact ⟨.lt, by simp [compare, isNull, valuetype], by simp [holdsCode]⟩
    · exact tells_of_ne rfl hwnull h
  | reference e =>
    by_cases h : w.valuetype = 16
    · cases w <;> simp [valuetype] at h
      exact ⟨.lt, by simp [compare, isNull, valuetype], by simp [holdsCode]⟩
    · exact tells_of_ne rfl hwnull h
  | ret =>
    by_cases h : w.valuetype = 12
    · cases w <;> simp [valuetype] at h
      exact ⟨.eq, rfl, by simp [holdsCode]⟩
    · exact tells_of_ne rfl hwnull h
  | void | boolean | integer | string | byteblock | path | symbol =>
    refine tells_plain hn hv hw rfl fun u hu hstorable => ?_
    cases u <;> simp_all [valuetype, StorableUpTo, DataUpTo, isData]

end YastCore.YCPValue
