import YastCore.Value.Bytecode
import YastCore.Value.Index
import YastCore.Value.Order

/-!
# Well-formed values

A value that holds no null at any depth, and no map key of a kind that `YCPMapRep::add` refuses: what
the methods that run through a value rely on. The null handle itself, as the result of a failed
evaluation, is not a value.
-/

namespace YastCore.YCPValue

open Bytecode

/-- The values that hold no other values. -/
def holdsNothing : YCPValue → Bool
  | list _ => false
  | term _ _ => false
  | map _ => false
  | _ => true

inductive WellFormed : YCPValue → Prop where
  | plain {v : YCPValue} (holds : holdsNothing v = true) (notNull : v.isNull = false) : WellFormed v
  | list {l : List YCPValue} (elements : ∀ v ∈ l, WellFormed v) : WellFormed (list l)
  | term {name : Text} {l : List YCPValue} (args : ∀ v ∈ l, WellFormed v) : WellFormed (term name l)
  | map {m : List (YCPValue × YCPValue)} (keys : ∀ e ∈ m, e.1.isMapKey = true)
      (values : ∀ e ∈ m, WellFormed e.2) : WellFormed (map m)

/-- A result: the null handle, or a well-formed value. -/
def Sound (v : YCPValue) : Prop := v.isNull = true ∨ WellFormed v

lemma WellFormed.notNull {v : YCPValue} (h : WellFormed v) : v.isNull = false := by
  cases h with
  | plain _ notNull => exact notNull
  | list _ => rfl
  | term _ => rfl
  | map _ _ => rfl

lemma WellFormed.elements {l : List YCPValue} (h : WellFormed (.list l)) : ∀ v ∈ l, WellFormed v := by
  cases h with
  | plain holds => cases holds
  | list elements => exact elements

lemma WellFormed.args {name : Text} {l : List YCPValue} (h : WellFormed (.term name l)) :
    ∀ v ∈ l, WellFormed v := by
  cases h with
  | plain holds => cases holds
  | term args => exact args

lemma WellFormed.entries {m : List (YCPValue × YCPValue)} (h : WellFormed (.map m)) :
    ∀ e ∈ m, e.1.isMapKey = true ∧ WellFormed e.2 := by
  cases h with
  | plain holds => cases holds
  | map keys values => exact fun e he => ⟨keys e he, values e he⟩

lemma sound_null : Sound null := .inl rfl

lemma sound_plain {v : YCPValue} (h : holdsNothing v = true) : Sound v := by
  by_cases hnull : v.isNull = true
  · exact .inl hnull
  · exact .inr (.plain h (by simpa using hnull))

lemma Sound.wellFormed {v : YCPValue} (h : Sound v) (hnull : v.isNull = false) : WellFormed v := by
  rcases h with h | h
  · rw [hnull] at h
    cases h
  · exact h

/-! ### Reading -/

lemma sound_listValue {l : List YCPValue} (h : ∀ v ∈ l, WellFormed v) (n : Int) :
    Sound (listValue l n) := by
  unfold listValue
  split
  · exact sound_null
  · rw [List.getD_eq_getElem?_getD]
    cases hget : l[n.toNat]? with
    | none => exact sound_null
    | some v => exact .inr (h v (List.mem_of_getElem? hget))

lemma sound_bracketElement {l : List YCPValue} (h : ∀ v ∈ l, WellFormed v) (v : YCPValue) :
    Sound (bracketElement l v) := by
  unfold bracketElement
  split
  · split
    · exact sound_null
    · exact sound_listValue h _
  · exact sound_null

lemma sound_mapValue {m : List (YCPValue × YCPValue)} (h : WellFormed (.map m)) (key : YCPValue) :
    Sound (mapValue m key) := by
  unfold mapValue
  split
  next e he => exact .inr (h.entries e (List.mem_of_find?_eq_some he)).2
  · exact sound_null

lemma sound_bracketStep {result : YCPValue} (h : WellFormed result) (v : YCPValue) :
    Sound (bracketStep result v) := by
  unfold bracketStep
  split
  · exact sound_null
  split
  · exact sound_bracketElement h.elements v
  · exact sound_bracketElement h.args v
  · exact sound_mapValue h v
  · exact sound_null

lemma sound_bracketLoop {v : YCPValue} (h : Sound v) (indices : List YCPValue) :
    Sound (bracketLoop v indices) := by
  induction indices generalizing v with
  | nil => exact h
  | cons i indices ih =>
    unfold bracketLoop
    dsimp only
    split
    · exact sound_null
    · refine ih ?_
      rcases h with hnull | hwell
      · cases v with
        | null =>
          rw [show bracketStep null i = null by simp [bracketStep]]
          exact sound_null
        | _ => cases hnull
      · exact sound_bracketStep hwell i

/-! ### Assigning -/

lemma wellFormed_listSet {l : List YCPValue} (h : ∀ v ∈ l, WellFormed v) (i : Int) {v : YCPValue}
    (hv : WellFormed v) : ∀ w ∈ listSet l i v, WellFormed w := by
  intro w hw
  unfold listSet at hw
  split at hw
  · exact h w hw
  · rcases List.mem_or_eq_of_mem_set hw with hw | rfl
    · rcases List.mem_append.mp hw with hw | hw
      · exact h w hw
      · rw [List.eq_of_mem_replicate hw]
        exact .plain rfl rfl
    · exact hv

lemma wellFormed_mapInsert {m : List (YCPValue × YCPValue)} (h : WellFormed (.map m))
    {key value : YCPValue} (hkey : key.isMapKey = true) (hvalue : WellFormed value) :
    WellFormed (.map (mapInsert key value m)) := by
  have hentries : ∀ e ∈ mapInsert key value m, e.1.isMapKey = true ∧ WellFormed e.2 := by
    intro e he
    rcases mem_mapInsert he with rfl | ⟨e', he', hkey', hvalue'⟩
    · exact ⟨hkey, hvalue⟩
    · rw [hkey']
      refine ⟨(h.entries e' he').1, ?_⟩
      rcases hvalue' with hvalue' | hvalue'
      · rw [hvalue']
        exact (h.entries e' he').2
      · rw [hvalue']
        exact hvalue
  exact .map (fun e he => (hentries e he).1) fun e he => (hentries e he).2

lemma sound_mapFunctionalAdd {m : List (YCPValue × YCPValue)} (h : WellFormed (.map m))
    (key : YCPValue) {value : YCPValue} (hvalue : WellFormed value) :
    Sound (mapFunctionalAdd m key value) := by
  unfold mapFunctionalAdd
  split
  next hkey => exact .inr (wellFormed_mapInsert h hkey hvalue)
  · exact sound_null

/-- The cases of `commit` for an element and for the place below it, which differ in the container
only. -/
lemma sound_commitAt {below value : YCPValue} {last : Bool} {store : YCPValue → YCPValue}
    (hstore : ∀ w, WellFormed w → Sound (store w)) (hvalue : WellFormed value)
    (hbelow : Sound below) :
    Sound (if last then store (if value.isNull then void else value)
      else if below.isNull then null else store below) := by
  split
  · rw [hvalue.notNull]
    exact hstore value hvalue
  · split
    · exact sound_null
    next hnull => exact hstore below (hbelow.wellFormed (by simpa using hnull))

lemma sound_commit {current : YCPValue} (hcurrent : Sound current) (arg : List YCPValue)
    {value : YCPValue} (hvalue : WellFormed value) : Sound (commit current arg value) := by
  induction arg generalizing current with
  | nil =>
    unfold commit
    exact .inr hvalue
  | cons argval rest ih =>
    unfold commit
    split
    · exact sound_null
    next hnull =>
      have hwell := hcurrent.wellFormed (by simpa using hnull)
      split
      · exact sound_null
      split
      · split
        · refine sound_commitAt (fun w hw => .inr (.list ?_)) hvalue (ih (sound_listValue hwell.elements _))
          exact wellFormed_listSet hwell.elements _ hw
        · exact sound_null
      · exact sound_commitAt (fun w hw => sound_mapFunctionalAdd hwell _ hw) hvalue
          (ih (sound_mapValue hwell _))
      · split
        · refine sound_commitAt (fun w hw => .inr (.term ?_)) hvalue (ih (sound_listValue hwell.args _))
          exact wellFormed_listSet hwell.args _ hw
        · exact sound_null
      · exact sound_null

/-! ### Running through a value -/

lemma sizesAtMostList_mem {n : Nat} {l : List YCPValue} (h : sizesAtMostList n l = true)
    {v : YCPValue} (hv : v ∈ l) : sizesAtMost n v = true := by
  induction l with
  | nil => cases hv
  | cons a l ih =>
    simp only [sizesAtMostList, Bool.and_eq_true] at h
    rcases List.mem_cons.mp hv with rfl | hv
    · exact h.1
    · exact ih h.2 hv

lemma sizesAtMostMap_mem {n : Nat} {m : List (YCPValue × YCPValue)} (h : sizesAtMostMap n m = true)
    {e : YCPValue × YCPValue} (he : e ∈ m) : sizesAtMost n e.2 = true := by
  induction m with
  | nil => cases he
  | cons a m ih =>
    simp only [sizesAtMostMap, Bool.and_eq_true] at h
    rcases List.mem_cons.mp he with rfl | he
    · exact h.1.2
    · exact ih h.2 he

lemma comparePath_isSome {a : List PathComponent} (ha : a.length < 2 ^ 32) (b : List PathComponent) :
    (comparePath a b).isSome = true := by
  unfold comparePath
  split
  · rfl
  · rw [if_pos ha]
    rfl

lemma compareElements_isSome {l m : List YCPValue}
    (h : ∀ a ∈ l, ∀ b ∈ m, (compare a b).isSome = true) (n : Nat) :
    (compareElements n l m).isSome = true := by
  induction l generalizing n m with
  | nil => simp [compareElements]
  | cons a l ih =>
    cases m with
    | nil => simp [compareElements]
    | cons b m =>
      cases n with
      | zero => simp [compareElements]
      | succ n =>
        have hab := h a List.mem_cons_self b List.mem_cons_self
        have hrest := ih (fun x hx y hy => h x (List.mem_cons_of_mem _ hx) y (List.mem_cons_of_mem _ hy)) n
        unfold compareElements
        split
        · exact hrest
        · exact hab

lemma compareList_isSome {elements : Nat → Option Ordering} (h : ∀ n, (elements n).isSome = true)
    (a b : Nat) : (compareList a b elements).isSome = true := by
  unfold compareList
  dsimp only
  split
  · rfl
  split
  · rfl
  split
  · rfl
  split
  · rfl
  · exact h _

lemma compare_mapKey_isSome {k : YCPValue} (hk : k.isMapKey = true) (k' : YCPValue) :
    (compare k k').isSome = true := by
  unfold compare
  cases k with
  | integer i => cases k' <;> simp [isNull, valuetype]
  | string t => cases k' <;> simp [isNull, valuetype]
  | symbol t => cases k' <;> simp [isNull, valuetype]
  | _ => cases hk

lemma compareEntries_isSome {l m : List (YCPValue × YCPValue)} (hlength : l.length = m.length)
    (hkey : ∀ e ∈ l, e.1.isMapKey = true)
    (h : ∀ e ∈ l, ∀ e' ∈ m, (compare e.2 e'.2).isSome = true) :
    (compareEntries l m).isSome = true := by
  induction l generalizing m with
  | nil =>
    rw [List.eq_nil_of_length_eq_zero hlength.symm]
    simp [compareEntries]
  | cons e l ih =>
    cases m with
    | nil => cases hlength
    | cons e' m =>
      have hfirst := compare_mapKey_isSome (hkey e List.mem_cons_self) e'.1
      have hsecond := h e List.mem_cons_self e' List.mem_cons_self
      have hrest := ih (Nat.succ.inj hlength) (fun x hx => hkey x (List.mem_cons_of_mem _ hx))
        fun x hx y hy => h x (List.mem_cons_of_mem _ hx) y (List.mem_cons_of_mem _ hy)
      unfold compareEntries
      split
      · split
        · exact hrest
        · exact hsecond
      · exact hfirst

/-- `compare` of well-formed values gives an answer: the sizes keep the loops from running without
end. -/
theorem WellFormed.compare_isSome {v w : YCPValue} (hv : WellFormed v) (hw : WellFormed w)
    (hsize : v.sizesAtMost (2 ^ 31 - 1) = true) (hsize' : w.sizesAtMost (2 ^ 31 - 1) = true) :
    (compare v w).isSome = true := by
  induction v using YCPValue.induct generalizing w with
  | null => exact absurd hv.notNull (by simp [isNull])
  | path p =>
    simp only [sizesAtMost, decide_eq_true_eq] at hsize
    have hpath (q : List PathComponent) := comparePath_isSome (a := p) (by omega) q
    cases w <;> simp [compare, isNull, valuetype, hpath]
  | list l ih =>
    simp only [sizesAtMost, Bool.and_eq_true, decide_eq_true_eq] at hsize
    cases w with
    | list m =>
      simp only [sizesAtMost, Bool.and_eq_true, decide_eq_true_eq] at hsize'
      rw [compare_list]
      refine compareList_isSome (fun n => compareElements_isSome (fun a ha b hb => ?_) n) _ _
      exact ih a ha (hv.elements a ha) (hw.elements b hb) (sizesAtMostList_mem hsize.2 ha)
        (sizesAtMostList_mem hsize'.2 hb)
    | _ => simp [compare, isNull, valuetype]
  | term n l ih =>
    simp only [sizesAtMost, Bool.and_eq_true, decide_eq_true_eq] at hsize
    cases w with
    | term n' m =>
      simp only [sizesAtMost, Bool.and_eq_true, decide_eq_true_eq] at hsize'
      rw [compare_term]
      split
      · refine compareList_isSome (fun n => compareElements_isSome (fun a ha b hb => ?_) n) _ _
        exact ih a ha (hv.args a ha) (hw.args b hb) (sizesAtMostList_mem hsize.2 ha)
          (sizesAtMostList_mem hsize'.2 hb)
      · rfl
    | _ => simp [compare, isNull, valuetype]
  | map l ih =>
    simp only [sizesAtMost, Bool.and_eq_true, decide_eq_true_eq] at hsize
    cases w with
    | map m =>
      simp only [sizesAtMost, Bool.and_eq_true, decide_eq_true_eq] at hsize'
      rw [compare_map]
      unfold compareMap
      rw [toInt32_of_lt (by omega), toInt32_of_lt (by omega)]
      dsimp only
      split
      · rfl
      split
      · rfl
      split
      · rfl
      · refine compareEntries_isSome (by omega) (fun e he => (hv.entries e he).1) fun e he e' he' => ?_
        exact (ih e he).2 (hv.entries e he).2 (hw.entries e' he').2 (sizesAtMostMap_mem hsize.2 he)
          (sizesAtMostMap_mem hsize'.2 he')
    | _ => simp [compare, isNull, valuetype]
  | _ => cases w <;> simp [compare, isNull, valuetype]

section Write

variable {isprint : UInt8 → Bool} {writeCode : CodePtr → Option Bytes}
  {writeEntry : EntryRef → Option Bytes}

lemma writeElements_isSome {l : List YCPValue}
    (h : ∀ v ∈ l, (writeValue isprint writeCode writeEntry v).isSome = true) :
    (writeElements isprint writeCode writeEntry l).isSome = true := by
  induction l with
  | nil => simp
  | cons v l ih =>
    obtain ⟨w, hw⟩ := Option.isSome_iff_exists.mp (h v List.mem_cons_self)
    obtain ⟨w', hw'⟩ :=
      Option.isSome_iff_exists.mp (ih fun x hx => h x (List.mem_cons_of_mem _ hx))
    simp [writeElements_cons, hw, hw']

lemma writeEntries_isSome {m : List (YCPValue × YCPValue)}
    (h : ∀ e ∈ m, (writeValue isprint writeCode writeEntry e.1).isSome = true ∧
      (writeValue isprint writeCode writeEntry e.2).isSome = true) :
    (writeEntries isprint writeCode writeEntry m).isSome = true := by
  induction m with
  | nil => simp
  | cons e m ih =>
    obtain ⟨w, hw⟩ := Option.isSome_iff_exists.mp (h e List.mem_cons_self).1
    obtain ⟨w', hw'⟩ := Option.isSome_iff_exists.mp (h e List.mem_cons_self).2
    obtain ⟨w'', hw''⟩ :=
      Option.isSome_iff_exists.mp (ih fun x hx => h x (List.mem_cons_of_mem _ hx))
    obtain ⟨k, v⟩ := e
    simp [writeEntries_cons, hw, hw', hw'']

lemma writeValue_mapKey_isSome {k : YCPValue} (hk : k.isMapKey = true) :
    (writeValue isprint writeCode writeEntry k).isSome = true := by
  cases k with
  | integer i => simp [writeValue]
  | string t => simp [writeValue]
  | symbol t => simp [writeValue]
  | _ => cases hk

/-- `writeValue` of a well-formed value writes something. -/
theorem WellFormed.writeValue_isSome {v : YCPValue} (hv : WellFormed v)
    (hsize : v.sizesAtMost (2 ^ 31 - 1) = true) (hcode : ∀ c, (writeCode c).isSome = true)
    (hentry : ∀ e, (writeEntry e).isSome = true) :
    (writeValue isprint writeCode writeEntry v).isSome = true := by
  have hlist {l : List YCPValue} (hlength : l.length ≤ 2 ^ 31 - 1)
      (h : (writeElements isprint writeCode writeEntry l).isSome = true) :
      (writeList l.length (writeElements isprint writeCode writeEntry l)).isSome = true := by
    unfold writeList
    rw [if_pos (by omega), Option.isSome_map]
    exact h
  induction v using YCPValue.induct with
  | null => exact absurd hv.notNull (by simp [isNull])
  | list l ih =>
    simp only [sizesAtMost, Bool.and_eq_true, decide_eq_true_eq] at hsize
    rw [writeValue_list, Option.isSome_map]
    refine hlist hsize.1 (writeElements_isSome fun v hmem => ?_)
    exact ih v hmem (hv.elements v hmem) (sizesAtMostList_mem hsize.2 hmem)
  | term n l ih =>
    simp only [sizesAtMost, Bool.and_eq_true, decide_eq_true_eq] at hsize
    rw [writeValue_term, Option.isSome_map]
    refine hlist hsize.1 (writeElements_isSome fun v hmem => ?_)
    exact ih v hmem (hv.args v hmem) (sizesAtMostList_mem hsize.2 hmem)
  | map m ih =>
    simp only [sizesAtMost, Bool.and_eq_true, decide_eq_true_eq] at hsize
    rw [writeValue_map, Option.isSome_map]
    refine writeEntries_isSome fun e he => ⟨?_, ?_⟩
    · exact writeValue_mapKey_isSome (hv.entries e he).1
    · exact (ih e he).2 (hv.entries e he).2 (sizesAtMostMap_mem hsize.2 he)
  | code c =>
    rw [writeValue, Option.isSome_map]
    exact hcode c
  | entry e =>
    rw [writeValue, Option.isSome_map]
    exact hentry e
  | _ => simp [writeValue]

end Write

end YastCore.YCPValue
