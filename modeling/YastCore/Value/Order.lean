import YastCore.Value.Compare

/-!
# The comparison of values is a total order

Every data value has a key, a list of integers, and the order of the values is the lexicographic
order of their keys. `YCPValueRep::compare` computes it as long as no list, term, map or path has
2^31 elements; from there on the sizes overflow the `int` they are kept in.
-/

namespace YastCore.YCPValue

open KeyOrder

/-! ### Data values -/

mutual

/-- Built from nil, booleans, integers, strings, byteblocks, paths, symbols, lists, terms and maps
with integer, string or symbol keys. -/
def isData : YCPValue → Bool
  | void => true
  | boolean _ => true
  | integer _ => true
  | string _ => true
  | byteblock _ => true
  | path _ => true
  | symbol _ => true
  | list l => isDataList l
  | term _ l => isDataList l
  | map m => isDataMap m
  | _ => false

def isDataList : List YCPValue → Bool
  | [] => true
  | v :: l => isData v && isDataList l

def isDataMap : List (YCPValue × YCPValue) → Bool
  | [] => true
  | (k, v) :: m => k.isMapKey && isData k && isData v && isDataMap m

end

mutual

/-- No list, term, map or path in the value has more than `n` elements. -/
def sizesAtMost (n : Nat) : YCPValue → Bool
  | path p => decide (p.length ≤ n)
  | list l => decide (l.length ≤ n) && sizesAtMostList n l
  | term _ l => decide (l.length ≤ n) && sizesAtMostList n l
  | map m => decide (m.length ≤ n) && sizesAtMostMap n m
  | _ => true

def sizesAtMostList (n : Nat) : List YCPValue → Bool
  | [] => true
  | v :: l => sizesAtMost n v && sizesAtMostList n l

def sizesAtMostMap (n : Nat) : List (YCPValue × YCPValue) → Bool
  | [] => true
  | (k, v) :: m => sizesAtMost n k && sizesAtMost n v && sizesAtMostMap n m

end

mutual

/-- The value with every path component quoted: what is left when quoting is ignored. -/
def quoteAll : YCPValue → YCPValue
  | path p => path (p.map fun c => ⟨c.component, true, by simp⟩)
  | list l => list (quoteAllList l)
  | term n l => term n (quoteAllList l)
  | map m => map (quoteAllMap m)
  | v => v

def quoteAllList : List YCPValue → List YCPValue
  | [] => []
  | v :: l => quoteAll v :: quoteAllList l

def quoteAllMap : List (YCPValue × YCPValue) → List (YCPValue × YCPValue)
  | [] => []
  | (k, v) :: m => (quoteAll k, quoteAll v) :: quoteAllMap m

end

lemma isDataList_iff {l : List YCPValue} : isDataList l = true ↔ ∀ v ∈ l, isData v = true := by
  induction l with
  | nil => simp [isDataList]
  | cons v l ih => simp [isDataList, ih]

lemma isDataMap_iff {m : List (YCPValue × YCPValue)} : isDataMap m = true ↔
    ∀ e ∈ m, e.1.isMapKey = true ∧ isData e.1 = true ∧ isData e.2 = true := by
  induction m with
  | nil => simp [isDataMap]
  | cons e m ih => simp [isDataMap, ih, and_assoc]

lemma sizesAtMostList_iff {n : Nat} {l : List YCPValue} :
    sizesAtMostList n l = true ↔ ∀ v ∈ l, sizesAtMost n v = true := by
  induction l with
  | nil => simp [sizesAtMostList]
  | cons v l ih => simp [sizesAtMostList, ih]

lemma sizesAtMostMap_iff {n : Nat} {m : List (YCPValue × YCPValue)} :
    sizesAtMostMap n m = true ↔
      ∀ e ∈ m, sizesAtMost n e.1 = true ∧ sizesAtMost n e.2 = true := by
  induction m with
  | nil => simp [sizesAtMostMap]
  | cons e m ih => simp [sizesAtMostMap, ih, and_assoc]

/-- The data values whose containers have at most `n` elements. -/
def DataUpTo (n : Nat) (v : YCPValue) : Prop := v.isData = true ∧ v.sizesAtMost n = true

lemma dataUpTo_list {n : Nat} {l : List YCPValue} :
    DataUpTo n (list l) ↔ l.length ≤ n ∧ ∀ v ∈ l, DataUpTo n v := by
  simp only [DataUpTo, isData, sizesAtMost, isDataList_iff, sizesAtMostList_iff, Bool.and_eq_true,
    decide_eq_true_eq]
  grind

lemma dataUpTo_term {n : Nat} {t : Text} {l : List YCPValue} :
    DataUpTo n (term t l) ↔ l.length ≤ n ∧ ∀ v ∈ l, DataUpTo n v := by
  simp only [DataUpTo, isData, sizesAtMost, isDataList_iff, sizesAtMostList_iff, Bool.and_eq_true,
    decide_eq_true_eq]
  grind

lemma dataUpTo_map {n : Nat} {m : List (YCPValue × YCPValue)} :
    DataUpTo n (map m) ↔ m.length ≤ n ∧
      ∀ e ∈ m, e.1.isMapKey = true ∧ DataUpTo n e.1 ∧ DataUpTo n e.2 := by
  simp only [DataUpTo, isData, sizesAtMost, isDataMap_iff, sizesAtMostMap_iff, Bool.and_eq_true,
    decide_eq_true_eq]
  grind

/-! ### Keys -/

def textKey (t : Text) : List Int := listKey (fun c : UInt8 => [(c.toNat : Int)]) t

mutual

/-- The key of a data value: its type, then its content. -/
def orderKey : YCPValue → List Int
  | boolean b => [1, b.toNat]
  | integer i => [2, i.toInt]
  | string t => 4 :: textKey t
  | byteblock b => 5 :: b.length :: b.map fun c => (c.toNat : Int)
  | path p => 6 :: listKey (fun c : PathComponent => textKey c.component) p
  | symbol t => 7 :: textKey t
  | list l => 8 :: elementsKey l
  | term n l => 9 :: (textKey n ++ elementsKey l)
  | map m => 10 :: m.length :: entriesKey m
  | v => [v.valuetype]

def elementsKey : List YCPValue → List Int
  | [] => [0]
  | v :: l => 1 :: (orderKey v ++ elementsKey l)

def entriesKey : List (YCPValue × YCPValue) → List Int
  | [] => []
  | (k, v) :: m => orderKey k ++ (orderKey v ++ entriesKey m)

end

lemma elementsKey_eq_listKey (l : List YCPValue) : elementsKey l = listKey orderKey l := by
  induction l with
  | nil => rfl
  | cons v l ih => rw [elementsKey, listKey, ih]

lemma compare_byte (a b : UInt8) : Ord.compare a b = Ord.compare (a.toNat : Int) (b.toNat : Int) := by
  change compareOfLessAndEq a b = compareOfLessAndEq (a.toNat : Int) (b.toNat : Int)
  simp only [compareOfLessAndEq, UInt8.lt_iff_toNat_lt, Int.ofNat_lt, ← UInt8.toNat_inj, Int.natCast_inj]

lemma byteKey_keyAt (a b : UInt8) :
    KeyAt (fun c : UInt8 => [(c.toNat : Int)]) (Ord.compare a b) a b := by
  rw [compare_byte]
  exact keyAt_singleton (fun c : UInt8 => (c.toNat : Int)) a b

lemma textKey_keyAt (a b : Text) : KeyAt textKey (compareText a b) a b :=
  listKey_keyAt byteKey_keyAt a b

lemma compareText_eq_iff (a b : Text) : compareText a b = .eq ↔ a = b :=
  Std.compare_eq_iff_eq

/-- The key of a data value starts with its type. -/
lemma orderKey_head (v : YCPValue) : ∃ t, orderKey v = (v.valuetype : Int) :: t := by
  cases v <;> simp [orderKey, valuetype]

/-! ### The comparison below the size limit -/

lemma toInt32_of_lt {n : Nat} (h : n < 2 ^ 31) : toInt32 n = n := by
  unfold toInt32
  rw [Int.bmod_eq_of_le] <;> omega

lemma toInt32_le (n : Nat) : toInt32 n ≤ n := by
  unfold toInt32
  rw [Int.bmod]
  have hmod : (n : Int) % ((2 ^ 32 : Nat) : Int) ≤ n := by
    have hle := Nat.mod_le n (2 ^ 32)
    rw [← Int.natCast_emod]
    omega
  split <;> omega

lemma compareList_small {a b : Nat} (ha : a < 2 ^ 31) (hb : b < 2 ^ 31)
    {elements : Nat → Option Ordering} (h : elements 0 = some .eq) :
    compareList a b elements =
      match elements (min a b) with
      | some .eq => some (Ord.compare a b)
      | o => o := by
  unfold compareList
  rw [toInt32_of_lt ha, toInt32_of_lt hb]
  rcases Nat.eq_zero_or_pos a with rfl | ha'
  · rcases Nat.eq_zero_or_pos b with rfl | hb'
    · simp [h]
    · have hb0 : b ≠ 0 := by omega
      simp [h, hb0, Nat.compare_eq_lt.mpr hb']
  · rcases Nat.eq_zero_or_pos b with rfl | hb'
    · have ha0 : a ≠ 0 := by omega
      simp [h, ha0, Nat.compare_eq_gt.mpr ha']
    · have hmin : (min (a : Int) (b : Int)).toNat = min a b := by omega
      have ha0 : (a : Int) ≠ 0 := by omega
      have hb0 : (b : Int) ≠ 0 := by omega
      simp only [ha0, hb0, and_self, if_false, hmin]
      have hverdict : (if (a : Int) = b then Ordering.eq else if (a : Int) < b then .lt else .gt) =
          Ord.compare a b := by
        rcases Nat.lt_trichotomy a b with hlt | rfl | hgt
        · rw [if_neg (by omega), if_pos (by omega), Nat.compare_eq_lt.mpr hlt]
        · rw [if_pos rfl, Nat.compare_eq_eq.mpr rfl]
        · rw [if_neg (by omega), if_neg (by omega), Nat.compare_eq_gt.mpr hgt]
      exact congrArg (fun v => match elements (min a b) with
        | some .eq => some v
        | o => o) hverdict

lemma compareMap_small {a b : Nat} (ha : a < 2 ^ 31) (hb : b < 2 ^ 31)
    {entries : Option Ordering} (h : a = 0 → b = 0 → entries = some .eq) :
    compareMap a b entries = if a = b then entries else some (Ord.compare a b) := by
  unfold compareMap
  rw [toInt32_of_lt ha, toInt32_of_lt hb]
  dsimp only
  by_cases h0 : (a : Int) = 0 ∧ (b : Int) = 0
  · have ha0 : a = 0 := by omega
    have hb0 : b = 0 := by omega
    rw [if_pos h0, if_pos (by omega), h ha0 hb0]
  · rw [if_neg h0]
    rcases Nat.lt_trichotomy a b with hlt | rfl | hgt
    · rw [if_pos (by omega), if_neg (by omega), Nat.compare_eq_lt.mpr hlt]
    · rw [if_neg (by omega), if_neg (by omega), if_pos rfl]
    · rw [if_neg (by omega), if_pos (by omega), if_neg (by omega), Nat.compare_eq_gt.mpr hgt]

lemma comparePathLoop_eq (a b : List PathComponent) :
    (match comparePathLoop a b with
      | some o => o
      | none => Ord.compare a.length b.length) =
      List.compareLex (fun a b => compareText a.component b.component) a b := by
  induction a generalizing b with
  | nil =>
    cases b with
    | nil => rfl
    | cons b m =>
      simp only [comparePathLoop, List.compareLex_nil_cons, List.length_nil, List.length_cons]
      exact Nat.compare_eq_lt.mpr (by omega)
  | cons a l ih =>
    cases b with
    | nil => rfl
    | cons b m =>
      rw [List.compareLex_cons_cons, comparePathLoop]
      cases h : compareText a.component b.component with
      | lt => rfl
      | gt => rfl
      | eq =>
        rw [Ordering.eq_then, ← ih m]
        cases hloop : comparePathLoop l m with
        | some o => rfl
        | none =>
          simp only [List.length_cons]
          rcases Nat.lt_trichotomy l.length m.length with hlt | heq | hgt
          · rw [Nat.compare_eq_lt.mpr hlt, Nat.compare_eq_lt.mpr (by omega)]
          · rw [Nat.compare_eq_eq.mpr heq, Nat.compare_eq_eq.mpr (by omega)]
          · rw [Nat.compare_eq_gt.mpr hgt, Nat.compare_eq_gt.mpr (by omega)]

lemma comparePath_small {a : List PathComponent} (ha : a.length < 2 ^ 31)
    (b : List PathComponent) :
    comparePath a b =
      some (List.compareLex (fun a b => compareText a.component b.component) a b) := by
  have hlen : a.length < 2 ^ 32 := by omega
  rw [comparePath, List.take_of_length_le (by omega), ← comparePathLoop_eq]
  cases comparePathLoop a b with
  | some o => rfl
  | none => exact if_pos hlen

lemma then_of_ne {o : Ordering} (h : o ≠ .eq) (o' : Ordering) : o.then o' = o := by
  cases o with
  | eq => exact absurd rfl h
  | _ => rfl

/-- A comparison that answers with the order of the keys. -/
def Answers {α : Type} (key : α → List Int) (answer : Option Ordering) (a b : α) : Prop :=
  ∃ o, answer = some o ∧ KeyAt key o a b

lemma elements_answer {l m : List YCPValue}
    (h : ∀ v ∈ l, ∀ w ∈ m, Answers orderKey (compare v w) v w) :
    Answers elementsKey
      (match compareElements (min l.length m.length) l m with
        | some .eq => some (Ord.compare l.length m.length)
        | o => o) l m := by
  rw [show elementsKey = listKey orderKey from funext elementsKey_eq_listKey]
  induction l generalizing m with
  | nil =>
    cases m with
    | nil => exact ⟨.eq, rfl, listKey_nil⟩
    | cons w m =>
      refine ⟨.lt, ?_, listKey_nil_cons w m⟩
      simp only [List.length_nil, Nat.zero_min, compareElements, Option.some.injEq]
      exact Nat.compare_eq_lt.mpr (by simp)
  | cons v l ih =>
    cases m with
    | nil =>
      refine ⟨.gt, ?_, listKey_cons_nil v l⟩
      simp only [List.length_nil, Nat.min_zero, compareElements, Option.some.injEq]
      exact Nat.compare_eq_gt.mpr (by simp)
    | cons w m =>
      obtain ⟨o, ho, hkey⟩ := h v List.mem_cons_self w List.mem_cons_self
      obtain ⟨o', ho', hkey'⟩ := ih (m := m) fun v hv w hw =>
        h v (List.mem_cons_of_mem _ hv) w (List.mem_cons_of_mem _ hw)
      refine ⟨o.then o', ?_, listKey_cons hkey hkey'⟩
      have hmin : min (v :: l).length (w :: m).length = min l.length m.length + 1 := by
        simp only [List.length_cons]
        omega
      have hlength : Ord.compare (v :: l).length (w :: m).length =
          Ord.compare l.length m.length := by
        simp only [List.length_cons, Nat.compare_eq_ite_lt, Nat.add_lt_add_iff_right]
      rw [hmin, hlength, compareElements, ho]
      cases o with
      | eq => exact ho'
      | lt => rfl
      | gt => rfl

lemma entries_answer {l m : List (YCPValue × YCPValue)} (hlen : l.length = m.length)
    (h : ∀ e ∈ l, ∀ e' ∈ m, Answers orderKey (compare e.1 e'.1) e.1 e'.1 ∧
      Answers orderKey (compare e.2 e'.2) e.2 e'.2) :
    Answers entriesKey (compareEntries l m) l m := by
  induction l generalizing m with
  | nil =>
    cases m with
    | nil => exact ⟨.eq, rfl, fun r s => (Ordering.eq_then).symm⟩
    | cons e' m => simp at hlen
  | cons e l ih =>
    cases m with
    | nil => simp at hlen
    | cons e' m =>
      obtain ⟨k, v⟩ := e
      obtain ⟨k', v'⟩ := e'
      obtain ⟨⟨ok, hok, hkeyk⟩, ⟨ov, hov, hkeyv⟩⟩ := h _ List.mem_cons_self _ List.mem_cons_self
      obtain ⟨o, ho, hkey⟩ := ih (m := m) (by simpa using hlen) fun e he e' he' =>
        h e (List.mem_cons_of_mem _ he) e' (List.mem_cons_of_mem _ he')
      refine ⟨ok.then (ov.then o), ?_, ?_⟩
      · rw [compareEntries, hok]
        cases ok with
        | eq =>
          rw [hov]
          cases ov with
          | eq => exact ho
          | lt => rfl
          | gt => rfl
        | lt => rfl
        | gt => rfl
      · intro r s
        simp only [entriesKey, List.append_assoc]
        rw [hkeyk, hkeyv, hkey, Ordering.then_assoc, Ordering.then_assoc]

lemma bytes_keyAt {a b : List UInt8} (h : a.length = b.length) (r s : List Int) :
    lex (a.map (fun c => (c.toNat : Int)) ++ r) (b.map (fun c => (c.toNat : Int)) ++ s) =
      (Ord.compare a b).then (lex r s) := by
  induction a generalizing b with
  | nil =>
    cases b with
    | nil => exact Ordering.eq_then.symm
    | cons c b => simp at h
  | cons c a ih =>
    cases b with
    | nil => simp at h
    | cons c' b =>
      rw [List.map_cons, List.map_cons, List.cons_append, List.cons_append, lex_cons,
        ih (by simpa using h), List.compare_cons_cons, compare_byte, Ordering.then_assoc]

lemma compare_natCast (a b : Nat) : Ord.compare (a : Int) (b : Int) = Ord.compare a b := by
  simp only [Nat.compare_eq_ite_lt, Int.compare_eq_ite_lt, Int.ofNat_lt]

lemma byteblock_keyAt (a b : List UInt8) :
    KeyAt orderKey (compareByteblock a b) (byteblock a) (byteblock b) := by
  intro r s
  simp only [orderKey, List.cons_append]
  rw [lex_cons_self, lex_cons, compareByteblock, compare_natCast]
  by_cases h : a.length = b.length
  · rw [Nat.compare_eq_eq.mpr h, Ordering.eq_then, Ordering.eq_then, bytes_keyAt h]
  · have hne : Ord.compare a.length b.length ≠ .eq := fun heq => h (Nat.compare_eq_eq.mp heq)
    rw [then_of_ne hne, then_of_ne hne, then_of_ne hne]

lemma answers_of_valuetype_ne {v w : YCPValue} (hv : v.isNull = false) (hw : w.isNull = false)
    (h : v.valuetype ≠ w.valuetype) : Answers orderKey (compare v w) v w := by
  obtain ⟨t, ht⟩ := orderKey_head v
  obtain ⟨t', ht'⟩ := orderKey_head w
  unfold compare
  simp only [hv, hw, Bool.false_eq_true, if_false, if_neg h]
  refine ⟨_, rfl, fun r s => ?_⟩
  rw [ht, ht', List.cons_append, List.cons_append]
  by_cases hlt : v.valuetype < w.valuetype
  · rw [if_pos hlt]
    exact lex_cons_of_lt (by omega) _ _
  · rw [if_neg hlt]
    exact lex_cons_of_gt (by omega) _ _

lemma keyAt_tag {α : Type} {key : α → List Int} {o : Ordering} {a b : α} (h : KeyAt key o a b)
    (f : α → YCPValue) (x : Int) (hf : ∀ a, orderKey (f a) = x :: key a) :
    KeyAt orderKey o (f a) (f b) := by
  intro r s
  rw [hf, hf, List.cons_append, List.cons_append, lex_cons_self, h]

lemma DataUpTo.not_null {n : Nat} {v : YCPValue} (h : DataUpTo n v) : v.isNull = false := by
  cases v with
  | null => simp [DataUpTo, isData] at h
  | _ => rfl

/-- Below the size limit the comparison answers, with the order of the keys. -/
lemma compare_answers {n : Nat} (hn : n < 2 ^ 31) (v w : YCPValue) (hv : DataUpTo n v)
    (hw : DataUpTo n w) : Answers orderKey (compare v w) v w := by
  induction v using induct generalizing w with
  | null => simp [DataUpTo, isData] at hv
  | void =>
    by_cases h : w.valuetype = 0
    · cases w <;> simp [valuetype] at h
      exact ⟨.eq, rfl, fun r s => lex_cons_self 0 r s⟩
    · exact answers_of_valuetype_ne rfl hw.not_null (Ne.symm h)
  | boolean b =>
    by_cases h : w.valuetype = 1
    · cases w <;> simp [valuetype] at h
      rename_i b'
      refine ⟨_, rfl, fun r s => ?_⟩
      cases b <;> cases b' <;> rfl
    · exact answers_of_valuetype_ne rfl hw.not_null (Ne.symm h)
  | integer i =>
    by_cases h : w.valuetype = 2
    · cases w <;> simp [valuetype] at h
      rename_i j
      exact ⟨_, rfl, keyAt_tag (keyAt_singleton Int64.toInt i j) integer 2 fun _ => by simp [orderKey]⟩
    · exact answers_of_valuetype_ne rfl hw.not_null (Ne.symm h)
  | string t =>
    by_cases h : w.valuetype = 4
    · cases w <;> simp [valuetype] at h
      rename_i t'
      exact ⟨_, rfl, keyAt_tag (textKey_keyAt t t') string 4 fun _ => by simp [orderKey]⟩
    · exact answers_of_valuetype_ne rfl hw.not_null (Ne.symm h)
  | byteblock b =>
    by_cases h : w.valuetype = 5
    · cases w <;> simp [valuetype] at h
      rename_i b'
      exact ⟨_, rfl, byteblock_keyAt b b'⟩
    · exact answers_of_valuetype_ne rfl hw.not_null (Ne.symm h)
  | path p =>
    by_cases h : w.valuetype = 6
    · cases w <;> simp [valuetype] at h
      rename_i p'
      have hp : p.length < 2 ^ 31 := by
        have := hv.2
        simp only [sizesAtMost, decide_eq_true_eq] at this
        omega
      refine ⟨_, comparePath_small hp p', ?_⟩
      exact keyAt_tag (listKey_keyAt (fun a b => textKey_keyAt a.component b.component) p p')
        path 6 fun _ => by simp [orderKey]
    · exact answers_of_valuetype_ne rfl hw.not_null (Ne.symm h)
  | symbol t =>
    by_cases h : w.valuetype = 7
    · cases w <;> simp [valuetype] at h
      rename_i t'
      exact ⟨_, rfl, keyAt_tag (textKey_keyAt t t') symbol 7 fun _ => by simp [orderKey]⟩
    · exact answers_of_valuetype_ne rfl hw.not_null (Ne.symm h)
  | list l ih =>
    by_cases h : w.valuetype = 8
    · cases w <;> simp [valuetype] at h
      rename_i m
      rw [dataUpTo_list] at hv hw
      obtain ⟨o, ho, hkey⟩ := elements_answer fun v hl w hm => ih v hl w (hv.2 v hl) (hw.2 w hm)
      refine ⟨o, ?_, keyAt_tag hkey list 8 fun _ => by simp [orderKey]⟩
      rw [compare_list, compareList_small (by omega) (by omega) (by simp [compareElements])]
      exact ho
    · exact answers_of_valuetype_ne rfl hw.not_null (Ne.symm h)
  | term t l ih =>
    by_cases h : w.valuetype = 9
    · cases w <;> simp [valuetype] at h
      rename_i t' m
      rw [dataUpTo_term] at hv hw
      obtain ⟨o, ho, hkey⟩ := elements_answer fun v hl w hm => ih v hl w (hv.2 v hl) (hw.2 w hm)
      refine ⟨(compareText t t').then o, ?_, ?_⟩
      · rw [compare_term]
        by_cases ht : t = t'
        · rw [if_pos ht, (compareText_eq_iff t t').mpr ht, Ordering.eq_then,
            compareList_small (by omega) (by omega) (by simp [compareElements])]
          exact ho
        · rw [if_neg ht]
          cases hc : compareText t t' with
          | eq => exact absurd ((compareText_eq_iff t t').mp hc) ht
          | lt => rfl
          | gt => rfl
      · intro r s
        simp only [orderKey, List.cons_append, List.append_assoc]
        rw [lex_cons_self, textKey_keyAt, hkey, Ordering.then_assoc]
    · exact answers_of_valuetype_ne rfl hw.not_null (Ne.symm h)
  | map m ih =>
    by_cases h : w.valuetype = 10
    · cases w <;> simp [valuetype] at h
      rename_i m'
      rw [dataUpTo_map] at hv hw
      rw [compare_map, compareMap_small (by omega) (by omega) (fun h h' => by
        rw [List.length_eq_zero_iff.mp h, List.length_eq_zero_iff.mp h']; simp [compareEntries])]
      by_cases hlen : m.length = m'.length
      · rw [if_pos hlen]
        obtain ⟨o, ho, hkey⟩ := entries_answer hlen fun e he e' he' =>
          ⟨(ih e he).1 e'.1 (hv.2 e he).2.1 (hw.2 e' he').2.1,
            (ih e he).2 e'.2 (hv.2 e he).2.2 (hw.2 e' he').2.2⟩
        refine ⟨o, ho, fun r s => ?_⟩
        simp only [orderKey, List.cons_append, hlen]
        rw [lex_cons_self, lex_cons_self, hkey]
      · rw [if_neg hlen]
        refine ⟨_, rfl, fun r s => ?_⟩
        simp only [orderKey, List.cons_append]
        rw [lex_cons_self, lex_cons, compare_natCast]
        have hne : Ord.compare m.length m'.length ≠ .eq := fun heq => hlen (Nat.compare_eq_eq.mp heq)
        rw [then_of_ne hne, then_of_ne hne]
    · exact answers_of_valuetype_ne rfl hw.not_null (Ne.symm h)
  | code c => simp [DataUpTo, isData] at hv
  | ret => simp [DataUpTo, isData] at hv
  | brk => simp [DataUpTo, isData] at hv
  | entry e => simp [DataUpTo, isData] at hv
  | error => simp [DataUpTo, isData] at hv
  | reference e => simp [DataUpTo, isData] at hv

/-! ### What the keys determine -/

lemma quoteAllList_eq_map (l : List YCPValue) : quoteAllList l = l.map quoteAll := by
  induction l with
  | nil => rfl
  | cons v l ih => rw [quoteAllList, ih, List.map_cons]

lemma quoteAllMap_eq_map (m : List (YCPValue × YCPValue)) :
    quoteAllMap m = m.map fun e => (quoteAll e.1, quoteAll e.2) := by
  induction m with
  | nil => rfl
  | cons e m ih => rw [quoteAllMap, ih, List.map_cons]

lemma textKey_determines {a b : Text} {r s : List Int} (h : textKey a ++ r = textKey b ++ s) :
    a = b ∧ r = s := by
  have hbyte (c c' : UInt8) (r s : List Int) (h : [(c.toNat : Int)] ++ r = [(c'.toNat : Int)] ++ s) :
      id c = id c' ∧ r = s := by
    simp only [List.cons_append, List.nil_append, List.cons.injEq, Int.natCast_inj] at h
    exact ⟨UInt8.toNat_inj.mp h.1, h.2⟩
  have h' := listKey_determines (fun a _ b _ => hbyte a b) h
  simpa using h'

lemma path_determines {p p' : List PathComponent} {r s : List Int}
    (h : listKey (fun c : PathComponent => textKey c.component) p ++ r =
      listKey (fun c : PathComponent => textKey c.component) p' ++ s) :
    quoteAll (path p) = quoteAll (path p') ∧ r = s := by
  have hmap := listKey_determines (f := fun c : PathComponent => (⟨c.component, true, by simp⟩ : PathComponent))
    (fun a _ b _ r s h => ?_) h
  · exact ⟨by rw [quoteAll, quoteAll, hmap.1], hmap.2⟩
  · obtain ⟨hcomp, hrs⟩ := textKey_determines h
    exact ⟨by simp [hcomp], hrs⟩

lemma bytes_determine {a b : List UInt8} (hlen : a.length = b.length) {r s : List Int}
    (h : a.map (fun c => (c.toNat : Int)) ++ r = b.map (fun c => (c.toNat : Int)) ++ s) :
    a = b ∧ r = s := by
  obtain ⟨hmap, hrs⟩ := List.append_inj h (by simpa using hlen)
  refine ⟨List.map_injective_iff.mpr (fun c c' hc => ?_) hmap, hrs⟩
  exact UInt8.toNat_inj.mp (Int.natCast_inj.mp hc)

lemma entries_determine {l m : List (YCPValue × YCPValue)} (hlen : l.length = m.length)
    (h : ∀ e ∈ l, ∀ e' ∈ m,
      (∀ r s, orderKey e.1 ++ r = orderKey e'.1 ++ s → e.1.quoteAll = e'.1.quoteAll ∧ r = s) ∧
      (∀ r s, orderKey e.2 ++ r = orderKey e'.2 ++ s → e.2.quoteAll = e'.2.quoteAll ∧ r = s))
    {r s : List Int} (heq : entriesKey l ++ r = entriesKey m ++ s) :
    quoteAllMap l = quoteAllMap m ∧ r = s := by
  induction l generalizing m with
  | nil =>
    cases m with
    | nil => exact ⟨rfl, heq⟩
    | cons e' m => simp at hlen
  | cons e l ih =>
    cases m with
    | nil => simp at hlen
    | cons e' m =>
      simp only [entriesKey, List.append_assoc] at heq
      obtain ⟨hk, hv⟩ := h e List.mem_cons_self e' List.mem_cons_self
      obtain ⟨hkey, heq⟩ := hk _ _ heq
      obtain ⟨hval, heq⟩ := hv _ _ heq
      obtain ⟨htail, hrs⟩ := ih (m := m) (by simpa using hlen) (fun e he e' he' =>
        h e (List.mem_cons_of_mem _ he) e' (List.mem_cons_of_mem _ he')) heq
      exact ⟨by simp only [quoteAllMap, hkey, hval, htail], hrs⟩

lemma valuetype_eq_of_orderKey {v w : YCPValue} {r s : List Int}
    (h : orderKey v ++ r = orderKey w ++ s) : v.valuetype = w.valuetype := by
  obtain ⟨t, ht⟩ := orderKey_head v
  obtain ⟨t', ht'⟩ := orderKey_head w
  rw [ht, ht'] at h
  simp only [List.cons_append, List.cons.injEq, Int.natCast_inj] at h
  exact h.1

/-- Equal keys are keys of values that differ at most in the quoting of paths. -/
lemma orderKey_determines (v w : YCPValue) (hv : v.isData = true) (hw : w.isData = true)
    (r s : List Int) (h : orderKey v ++ r = orderKey w ++ s) : v.quoteAll = w.quoteAll ∧ r = s := by
  have htype := valuetype_eq_of_orderKey h
  induction v using induct generalizing w r s with
  | void => cases w <;> simp_all [valuetype, orderKey]
  | boolean b =>
    cases w <;> simp only [valuetype] at htype <;> try omega
    rename_i b'
    cases b <;> cases b' <;> simp_all [orderKey]
  | integer i =>
    cases w <;> simp only [valuetype] at htype <;> try omega
    simp only [orderKey, List.cons_append, List.nil_append, List.cons.injEq, true_and] at h
    exact ⟨by rw [Int64.toInt_inj.mp h.1], h.2⟩
  | string t =>
    cases w <;> simp only [valuetype] at htype <;> try omega
    simp only [orderKey, List.cons_append, List.cons.injEq, true_and] at h
    obtain ⟨rfl, hrs⟩ := textKey_determines h
    exact ⟨rfl, hrs⟩
  | byteblock b =>
    cases w <;> simp only [valuetype] at htype <;> try omega
    simp only [orderKey, List.cons_append, List.cons.injEq, true_and, Int.natCast_inj] at h
    obtain ⟨rfl, hrs⟩ := bytes_determine h.1 h.2
    exact ⟨rfl, hrs⟩
  | path p =>
    cases w <;> simp only [valuetype] at htype <;> try omega
    simp only [orderKey, List.cons_append, List.cons.injEq, true_and] at h
    exact path_determines h
  | symbol t =>
    cases w <;> simp only [valuetype] at htype <;> try omega
    simp only [orderKey, List.cons_append, List.cons.injEq, true_and] at h
    obtain ⟨rfl, hrs⟩ := textKey_determines h
    exact ⟨rfl, hrs⟩
  | list l ih =>
    cases w <;> simp only [valuetype] at htype <;> try omega
    rename_i m
    simp only [isData, isDataList_iff] at hv hw
    simp only [orderKey, List.cons_append, List.cons.injEq, true_and,
      elementsKey_eq_listKey] at h
    obtain ⟨hlm, hrs⟩ := listKey_determines (fun a ha b hb r s h =>
      ih a ha b (hv a ha) (hw b hb) r s h (valuetype_eq_of_orderKey h)) h
    exact ⟨by rw [quoteAll, quoteAll, quoteAllList_eq_map, quoteAllList_eq_map, hlm], hrs⟩
  | term t l ih =>
    cases w <;> simp only [valuetype] at htype <;> try omega
    rename_i t' m
    simp only [isData, isDataList_iff] at hv hw
    simp only [orderKey, List.cons_append, List.cons.injEq, true_and, List.append_assoc,
      elementsKey_eq_listKey] at h
    obtain ⟨rfl, h'⟩ := textKey_determines h
    obtain ⟨hlm, hrs⟩ := listKey_determines (fun a ha b hb r s h =>
      ih a ha b (hv a ha) (hw b hb) r s h (valuetype_eq_of_orderKey h)) h'
    exact ⟨by rw [quoteAll, quoteAll, quoteAllList_eq_map, quoteAllList_eq_map, hlm], hrs⟩
  | map m ih =>
    cases w <;> simp only [valuetype] at htype <;> try omega
    rename_i m'
    simp only [isData, isDataMap_iff] at hv hw
    simp only [orderKey, List.cons_append, List.cons.injEq, true_and, Int.natCast_inj] at h
    obtain ⟨hmap, hrs⟩ := entries_determine h.1 (fun e he e' he' =>
      ⟨fun r s h => (ih e he).1 e'.1 (hv e he).2.1 (hw e' he').2.1 r s h
          (valuetype_eq_of_orderKey h),
        fun r s h => (ih e he).2 e'.2 (hv e he).2.2 (hw e' he').2.2 r s h
          (valuetype_eq_of_orderKey h)⟩) h.2
    exact ⟨by rw [quoteAll, quoteAll, hmap], hrs⟩
  | _ => simp [isData] at hv

/-- Quoting does not enter the key. -/
lemma orderKey_quoteAll (v : YCPValue) : orderKey v.quoteAll = orderKey v := by
  induction v using induct with
  | path p =>
    simp only [quoteAll, orderKey, List.cons.injEq, true_and]
    induction p with
    | nil => rfl
    | cons c p ih => simp only [List.map_cons, listKey, ih]
  | list l ih =>
    simp only [quoteAll, orderKey, List.cons.injEq, true_and]
    induction l with
    | nil => rfl
    | cons v l ihl =>
      simp only [quoteAllList, elementsKey, ih v List.mem_cons_self,
        ihl fun w hw => ih w (List.mem_cons_of_mem _ hw)]
  | term t l ih =>
    simp only [quoteAll, orderKey, List.cons.injEq, true_and]
    congr 1
    induction l with
    | nil => rfl
    | cons v l ihl =>
      simp only [quoteAllList, elementsKey, ih v List.mem_cons_self,
        ihl fun w hw => ih w (List.mem_cons_of_mem _ hw)]
  | map m ih =>
    have hlen : (quoteAllMap m).length = m.length := by
      rw [quoteAllMap_eq_map, List.length_map]
    simp only [quoteAll, orderKey, List.cons.injEq, true_and, hlen]
    clear hlen
    induction m with
    | nil => rfl
    | cons e m ihm =>
      simp only [quoteAllMap, entriesKey, (ih e List.mem_cons_self).1, (ih e List.mem_cons_self).2,
        ihm fun e he => ih e (List.mem_cons_of_mem _ he)]
  | _ => rfl

lemma orderKey_eq_iff {v w : YCPValue} (hv : v.isData = true) (hw : w.isData = true) :
    orderKey v = orderKey w ↔ v.quoteAll = w.quoteAll := by
  constructor
  · intro h
    exact (orderKey_determines v w hv hw [] [] (by rw [h])).1
  · intro h
    rw [← orderKey_quoteAll v, h, orderKey_quoteAll]

/-! ### The order -/

/-- What `std::map`, `std::set` and `std::sort` ask of the comparison on the values in `D`. -/
structure TotalOrderOn (D : YCPValue → Prop) : Prop where
  total : ∀ a b, D a → D b →
    compare a b = some .lt ∨ compare a b = some .eq ∨ compare a b = some .gt
  mirror : ∀ a b, D a → D b → compare b a = (compare a b).map Ordering.swap
  trans : ∀ a b c, D a → D b → D c →
    compare a b ≠ some .gt → compare b c ≠ some .gt → compare a c ≠ some .gt
  equal_iff : ∀ a b, D a → D b → (compare a b = some .eq ↔ a.quoteAll = b.quoteAll)
  less_irrefl : ∀ a, D a → ¬ ycpLess a a
  less_trans : ∀ a b c, D a → D b → D c → ycpLess a b → ycpLess b c → ycpLess a c
  incomparable_trans : ∀ a b c, D a → D b → D c → ¬ ycpLess a b ∧ ¬ ycpLess b a →
    ¬ ycpLess b c ∧ ¬ ycpLess c b → ¬ ycpLess a c ∧ ¬ ycpLess c a

lemma compare_eq_lex {n : Nat} (hn : n < 2 ^ 31) {v w : YCPValue} (hv : DataUpTo n v)
    (hw : DataUpTo n w) : compare v w = some (lex (orderKey v) (orderKey w)) := by
  obtain ⟨o, ho, hkey⟩ := compare_answers hn v w hv hw
  rw [ho, hkey.lex_eq]

lemma incomparable_iff {r s : List Int} : (¬ lex r s = .lt ∧ ¬ lex s r = .lt) ↔ r = s := by
  rw [lex_swap r s, ← lex_eq_iff]
  cases lex r s <;> simp

lemma totalOrderOn_of_lt {n : Nat} (hn : n < 2 ^ 31) : TotalOrderOn (DataUpTo n) where
  total a b ha hb := by
    rw [compare_eq_lex hn ha hb]
    cases lex (orderKey a) (orderKey b) <;> simp
  mirror a b ha hb := by
    rw [compare_eq_lex hn ha hb, compare_eq_lex hn hb ha, lex_swap, Option.map_some]
  trans a b c ha hb hc h h' := by
    rw [compare_eq_lex hn ha hb, ne_eq, Option.some.injEq, ← Ordering.isLE_iff_ne_gt] at h
    rw [compare_eq_lex hn hb hc, ne_eq, Option.some.injEq, ← Ordering.isLE_iff_ne_gt] at h'
    rw [compare_eq_lex hn ha hc, ne_eq, Option.some.injEq, ← Ordering.isLE_iff_ne_gt]
    exact lex_isLE_trans h h'
  equal_iff a b ha hb := by
    rw [compare_eq_lex hn ha hb, Option.some.injEq, lex_eq_iff, orderKey_eq_iff ha.1 hb.1]
  less_irrefl a ha h := by
    rw [ycpLess, compare_eq_lex hn ha ha, (lex_eq_iff _ _).mpr rfl] at h
    simp at h
  less_trans a b c ha hb hc h h' := by
    rw [ycpLess, compare_eq_lex hn ha hb, Option.some.injEq] at h
    rw [ycpLess, compare_eq_lex hn hb hc, Option.some.injEq] at h'
    rw [ycpLess, compare_eq_lex hn ha hc, lex_lt_trans h h']
  incomparable_trans a b c ha hb hc h h' := by
    simp only [ycpLess, compare_eq_lex hn ha hb, compare_eq_lex hn hb ha, compare_eq_lex hn hb hc,
      compare_eq_lex hn hc hb, compare_eq_lex hn ha hc, compare_eq_lex hn hc ha,
      Option.some.injEq, incomparable_iff] at h h' ⊢
    exact h.trans h'

/-- At 2^31 elements the size is a negative `int`: no element is looked at. -/
lemma compare_list_overflow {l m : List YCPValue} (hl : l.length = 2 ^ 31)
    (hm : m.length = 2 ^ 31) : compare (list l) (list m) = some .eq := by
  have hsize : toInt32 (2 ^ 31) = -2 ^ 31 := by decide
  rw [compare_list, hl, hm, compareList, hsize]
  simp [compareElements]

lemma quoteAll_replicate_ne {n : Nat} (hn : n ≠ 0) : (list (List.replicate n void)).quoteAll ≠
    (list (List.replicate n (boolean true))).quoteAll := by
  intro h
  simp only [quoteAll, quoteAllList_eq_map, List.map_replicate, list.injEq,
    List.replicate_right_inj hn] at h
  cases h

/-- Two lists of 2^31 elements that differ everywhere are taken for equal. -/
theorem compare_long_lists_equal :
    compare (list (List.replicate (2 ^ 31) void)) (list (List.replicate (2 ^ 31) (boolean true))) =
        some .eq ∧
      (list (List.replicate (2 ^ 31) void)).quoteAll ≠
        (list (List.replicate (2 ^ 31) (boolean true))).quoteAll := by
  exact ⟨compare_list_overflow List.length_replicate List.length_replicate,
    quoteAll_replicate_ne (by decide)⟩

/-- The comparison is a total order on the data values whose containers have at most `n` elements,
equal exactly for values equal up to the quoting of paths, as long as `n` is less than 2^31 and no
longer. -/
theorem compare_totalOrderOn_iff (n : Nat) : TotalOrderOn (DataUpTo n) ↔ n < 2 ^ 31 := by
  refine ⟨fun h => ?_, totalOrderOn_of_lt⟩
  by_contra hn
  have hdata (v : YCPValue) (hv : DataUpTo n v) : DataUpTo n (list (List.replicate (2 ^ 31) v)) := by
    rw [dataUpTo_list, List.length_replicate]
    refine ⟨by omega, fun w hw => ?_⟩
    rw [List.eq_of_mem_replicate hw]
    exact hv
  have hvoid : DataUpTo n void := ⟨rfl, rfl⟩
  have htrue : DataUpTo n (boolean true) := ⟨rfl, rfl⟩
  exact quoteAll_replicate_ne (by decide) ((h.equal_iff _ _ (hdata _ hvoid) (hdata _ htrue)).mp
    (compare_list_overflow List.length_replicate List.length_replicate))

end YastCore.YCPValue
