import YastCore.Lib.StdMap
import YastCore.Value.Handles
import YastCore.Value.Index

/-!
# Maps as functions

The builtins that read, extend and shrink maps. Whatever expression of them is evaluated, its value is the map
that holds what finite partial functions would say, and it is the same value for the same contents.
-/

namespace YastCore

open YCPValue

/-! ### The representation -/

namespace YCPValue

/-- `stl_map.find`. -/
def mapFind (m : List (YCPValue × YCPValue)) (key : YCPValue) : Option (YCPValue × YCPValue) :=
  StdMap.find keyLess key m

/-- `YCPMapRep::hasKey`. -/
def mapHasKey (m : List (YCPValue × YCPValue)) (key : YCPValue) : Bool := (mapFind m key).isSome

/-- `YCPMapRep::size`. -/
def mapSize (m : List (YCPValue × YCPValue)) : Int64 := Int64.ofNat m.length

end YCPValue

/-! ### The builtins

The null handle of a map is `none`. -/

def mHaskey : Option (List (YCPValue × YCPValue)) → YCPValue → YCPValue
  | none, _ => null
  | some m, value => if value.isNull then null else boolean (mapHasKey m value)

/-- The loop that adds the entries of a map to the new one. -/
def mUnionmapLoop : List (YCPValue × YCPValue) → List (YCPValue × YCPValue) → Option (List (YCPValue × YCPValue))
  | newmap, [] => some newmap
  | newmap, (k, v) :: m => (mapAdd newmap k v).bind fun newmap => mUnionmapLoop newmap m

def mUnionmap : Option (List (YCPValue × YCPValue)) → Option (List (YCPValue × YCPValue)) → Option YCPValue
  | some map1, some map2 =>
    ((mUnionmapLoop [] map1).bind fun newmap => mUnionmapLoop newmap map2).map map
  | _, _ => some null

def mAddmap : Option (List (YCPValue × YCPValue)) → YCPValue → YCPValue → YCPValue
  | none, _, _ => null
  | some m, key, value => if key.isNull then null else mapFunctionalAdd m key value

def mChangemap : Option (List (YCPValue × YCPValue)) → YCPValue → YCPValue → Option YCPValue
  | none, _, _ => some null
  | some m, key, value => if key.isNull then some null else (mapAdd m key value).map map

/-- The null handle would be dereferenced. -/
def mIsempty : Option (List (YCPValue × YCPValue)) → Option YCPValue
  | none => none
  | some m => some (boolean m.isEmpty)

def mSize : YCPValue → YCPValue
  | map m => integer (mapSize m)
  | _ => integer 0

def mTomap : YCPValue → YCPValue
  | map m => map m
  | _ => null

def mRemove : Option (List (YCPValue × YCPValue)) → YCPValue → Option YCPValue
  | none, _ => some null
  | some m, key =>
    if key.isNull then some null
    else if !mapHasKey m key then some (map m)
    else (mapRemove m key).map map

/-! ### Expressions -/

/-- Expressions of the builtins that yield maps, with the other arguments evaluated. -/
inductive MapExpr where
  | literal (m : List (YCPValue × YCPValue))
  | union (e e' : MapExpr)
  | add (e : MapExpr) (key value : YCPValue)
  | change (e : MapExpr) (key value : YCPValue)
  | remove (e : MapExpr) (key : YCPValue)
  | tomap (e : MapExpr)

/-- The argument that a builtin gets for a value. -/
def asMap : YCPValue → Option (List (YCPValue × YCPValue))
  | map m => some m
  | _ => none

namespace MapExpr

def evaluate : MapExpr → Option YCPValue
  | literal m => some (map m)
  | union e e' => e.evaluate.bind fun v => e'.evaluate.bind fun v' => mUnionmap (asMap v) (asMap v')
  | add e key value => e.evaluate.bind fun v => some (mAddmap (asMap v) key value)
  | change e key value => e.evaluate.bind fun v => mChangemap (asMap v) key value
  | remove e key => e.evaluate.bind fun v => mRemove (asMap v) key
  | tomap e => e.evaluate.bind fun v => some (mTomap v)

/-- The maps that the expression starts from are maps of the interpreter. -/
def Wellformed : MapExpr → Prop
  | literal m => MapOrdered m
  | union e e' => e.Wellformed ∧ e'.Wellformed
  | add e _ _ => e.Wellformed
  | change e _ _ => e.Wellformed
  | remove e _ => e.Wellformed
  | tomap e => e.Wellformed

end MapExpr

/-! ### Contents -/

/-- What a map holds. -/
abbrev Contents := YCPValue → Option YCPValue

/-- The entries of a map. -/
def entriesOf (m : List (YCPValue × YCPValue)) : Contents :=
  fun key => if key.isMapKey then (mapFind m key).map Prod.snd else none

namespace MapExpr

open Classical in
/-- What the value of an expression holds; `none` where it is nil. -/
noncomputable def contents : MapExpr → Option Contents
  | literal m => some (entriesOf m)
  | union e e' => e.contents.bind fun f => e'.contents.bind fun g => some fun key => (g key).or (f key)
  | add e key value =>
    e.contents.bind fun f => if key.isMapKey then some (Function.update f key (some value)) else none
  | change e key value =>
    e.contents.bind fun f =>
      if key.isNull then none
      else if key.isMapKey then some (Function.update f key (some value))
      else some f
  | remove e key => e.contents.bind fun f => if key.isNull then none else some (Function.update f key none)
  | tomap e => e.contents

end MapExpr

/-! ### Maps and their contents -/

section Contents

variable {m m' : List (YCPValue × YCPValue)} {f g : Contents} {key value : YCPValue}

lemma orders_keyLess : StdMap.Orders keyLess fun k => k.isMapKey = true :=
  ⟨keyLess_irrefl, keyLess_trans, eq_of_not_keyLess⟩

/-- The map holds what the function says. -/
abbrev HoldsContents (m : List (YCPValue × YCPValue)) (f : Contents) : Prop :=
  StdMap.Represents keyLess (fun k => k.isMapKey = true) m f

lemma mapInsert_eq (key value : YCPValue) (m : List (YCPValue × YCPValue)) :
    mapInsert key value m = StdMap.insert keyLess key value m := by
  induction m with
  | nil => rfl
  | cons e m ih => rw [mapInsert, StdMap.insert, ih]

lemma mapErase_eq_erase (key : YCPValue) (m : List (YCPValue × YCPValue)) :
    mapErase key m = StdMap.erase keyLess key m := by
  induction m with
  | nil => rfl
  | cons e m ih => rw [mapErase, StdMap.erase, ih]

lemma mapValue_eq (m : List (YCPValue × YCPValue)) (key : YCPValue) :
    mapValue m key = ((mapFind m key).map Prod.snd).getD null := by
  unfold mapValue mapFind StdMap.find
  cases m.find? fun e => !keyLess e.1 key && !keyLess key e.1 <;> rfl

open Classical in
lemma holds_insert (h : HoldsContents m f) (hkey : key.isMapKey = true) (value : YCPValue) :
    HoldsContents (mapInsert key value m) (Function.update f key (some value)) := by
  rw [mapInsert_eq]
  exact orders_keyLess.represents_insert h hkey

/-- Only keys of the three kinds are in a map. -/
lemma holds_eq_none (h : HoldsContents m f) (hkey : ¬key.isMapKey = true) : f key = none := by
  by_contra hne
  obtain ⟨v, hv⟩ := Option.ne_none_iff_exists'.mp hne
  exact hkey (h.keys _ ((h.holds key v).mp hv))

/-- A value of another kind is compared by its kind, so it is not found. -/
lemma mapFind_eq_none (hm : ∀ e ∈ m, e.1.isMapKey = true) (hnull : key.isNull = false) (hkey : ¬key.isMapKey = true) :
    mapFind m key = none := by
  refine List.find?_eq_none.mpr fun e he hsame => ?_
  have he := hm e he
  generalize e.1 = k at he hsame
  have hkinds : k.valuetype ≠ key.valuetype := by
    cases k <;> simp [isMapKey] at he <;> cases key <;> simp [isMapKey, valuetype] at hkey ⊢
  have hk : k.isNull = false := isNull_of_isMapKey he
  rw [keyLess, keyLess, compare_of_valuetype_ne hk hnull hkinds, compare_of_valuetype_ne hnull hk hkinds.symm] at hsame
  rcases lt_or_gt_of_ne hkinds with hlt | hlt
  · simp [hlt] at hsame
  · simp [hlt] at hsame

lemma holds_find (h : HoldsContents m f) (hnull : key.isNull = false) : (mapFind m key).map Prod.snd = f key := by
  by_cases hkey : key.isMapKey = true
  · rw [mapFind, orders_keyLess.find_eq h hkey]
    cases f key <;> rfl
  · rw [mapFind_eq_none h.keys hnull hkey, holds_eq_none h hkey, Option.map_none]

lemma holds_entriesOf (hm : MapOrdered m) : HoldsContents m (entriesOf m) := by
  obtain ⟨f, hf⟩ := orders_keyLess.exists_represents (m := m) ⟨hm.keys, hm.increasing⟩
  have heq : entriesOf m = f := by
    funext key
    unfold entriesOf
    split
    · next hkey => exact holds_find hf (isNull_of_isMapKey hkey)
    · next hkey => exact (holds_eq_none hf hkey).symm
  rwa [heq]

/-! ### What the builtins do to the contents -/

lemma mapAdd_of_isMapKey (hkey : key.isMapKey = true) (value : YCPValue) (m : List (YCPValue × YCPValue)) :
    mapAdd m key value = some (mapInsert key value m) := by
  rw [mapAdd, if_neg (by simp [isNull_of_isMapKey hkey]), if_pos hkey]

open Classical in
lemma mUnionmapLoop_eq {newmap : List (YCPValue × YCPValue)} (hnew : HoldsContents newmap f) (hm : HoldsContents m g) :
    ∃ r, mUnionmapLoop newmap m = some r ∧ HoldsContents r fun key => (g key).or (f key) := by
  induction m generalizing newmap f g with
  | nil =>
    refine ⟨newmap, rfl, ?_⟩
    have hnone : ∀ key, g key = none := by
      intro key
      by_contra hne
      obtain ⟨v, hv⟩ := Option.ne_none_iff_exists'.mp hne
      cases (hm.holds key v).mp hv
    simpa [hnone] using hnew
  | cons e m ih =>
    obtain ⟨k, v⟩ := e
    have hk : k.isMapKey = true := hm.keys (k, v) List.mem_cons_self
    obtain ⟨g', hg', rfl, hnone⟩ := orders_keyLess.represents_cons hm
    obtain ⟨r, hr, hholds⟩ := ih (holds_insert hnew hk v) hg'
    refine ⟨r, by rw [mUnionmapLoop, mapAdd_of_isMapKey hk, Option.bind_some, hr], ?_⟩
    convert hholds using 2 with key
    rw [Function.update_apply, Function.update_apply]
    by_cases hkey : key = k
    · subst hkey
      simp [hnone]
    · simp [hkey]

/-- The value of an expression with this content. -/
def Evaluates (result : Option YCPValue) (contents : Option Contents) : Prop :=
  match contents with
  | none => result = some null
  | some f => ∃ m, result = some (map m) ∧ HoldsContents m f

/-- A builtin that yields nil for nil. -/
lemma Evaluates.bind {result : Option YCPValue} {contents : Option Contents} {builtin : YCPValue → Option YCPValue}
    {step : Contents → Option Contents} (h : Evaluates result contents) (hnull : builtin null = some null)
    (hmap : ∀ m f, HoldsContents m f → Evaluates (builtin (map m)) (step f)) :
    Evaluates (result.bind builtin) (contents.bind step) := by
  cases contents with
  | none =>
    obtain rfl : result = some null := h
    exact hnull
  | some f =>
    obtain ⟨m, rfl, hm⟩ := h
    exact hmap m f hm

lemma Evaluates.exists_value {result : Option YCPValue} {contents : Option Contents}
    (h : Evaluates result contents) : ∃ v, result = some v := by
  cases contents with
  | none => exact ⟨_, h⟩
  | some f =>
    obtain ⟨m, hm, -⟩ := h
    exact ⟨_, hm⟩

open Classical in
lemma evaluates_union (hm : HoldsContents m f) (hm' : HoldsContents m' g) :
    Evaluates (mUnionmap (some m) (some m')) (some fun key => (g key).or (f key)) := by
  obtain ⟨r, hr, hholds⟩ := mUnionmapLoop_eq StdMap.represents_nil hm
  obtain ⟨r', hr', hholds'⟩ := mUnionmapLoop_eq hholds hm'
  refine ⟨r', ?_, by simpa using hholds'⟩
  rw [mUnionmap, hr, Option.bind_some, hr', Option.map_some]

open Classical in
lemma evaluates_remove (hm : HoldsContents m f) (hnull : key.isNull = false) :
    Evaluates (mRemove (some m) key) (some (Function.update f key none)) := by
  have hfind := holds_find hm hnull
  rw [mRemove, if_neg (by simp [hnull])]
  by_cases hhas : mapHasKey m key = true
  · have hkey : key.isMapKey = true := by
      by_contra hkey
      rw [mapHasKey, mapFind_eq_none hm.keys hnull hkey] at hhas
      cases hhas
    refine ⟨mapErase key m, ?_, ?_⟩
    · rw [if_neg (by simp [hhas]), mapRemove, if_neg (by simp [hnull]), if_pos hkey, Option.map_some]
    · rw [mapErase_eq_erase]
      exact orders_keyLess.represents_erase hm hkey
  · have hnone : f key = none := by
      rw [mapHasKey, Bool.not_eq_true, Option.isSome_eq_false_iff, Option.isNone_iff_eq_none] at hhas
      rw [← hfind, hhas, Option.map_none]
    refine ⟨m, by rw [if_pos (by simpa using hhas)], ?_⟩
    rwa [← hnone, Function.update_eq_self]

/-- One builtin after the other. -/
lemma evaluates_contents {e : MapExpr} (h : e.Wellformed) : Evaluates e.evaluate e.contents := by
  induction e with
  | literal m => exact ⟨m, rfl, holds_entriesOf h⟩
  | union e e' ih ih' =>
    refine (ih h.1).bind ?_ fun m f hm => (ih' h.2).bind rfl fun m' g hm' => evaluates_union hm hm'
    obtain ⟨v, hv⟩ := (ih' h.2).exists_value
    rw [hv]
    rfl
  | add e key value ih =>
    refine (ih h).bind rfl fun m f hm => ?_
    by_cases hkey : key.isMapKey = true
    · rw [if_pos hkey]
      refine ⟨_, ?_, holds_insert hm hkey value⟩
      simp [asMap, mAddmap, isNull_of_isMapKey hkey, mapFunctionalAdd, hkey]
    · rw [if_neg hkey]
      simp [Evaluates, asMap, mAddmap, mapFunctionalAdd, hkey]
  | change e key value ih =>
    refine (ih h).bind rfl fun m f hm => ?_
    rw [asMap, mChangemap]
    by_cases hnull : key.isNull = true
    · rw [if_pos hnull, if_pos hnull]
      rfl
    rw [if_neg hnull, if_neg hnull]
    by_cases hkey : key.isMapKey = true
    · rw [if_pos hkey, mapAdd_of_isMapKey hkey]
      exact ⟨_, rfl, holds_insert hm hkey value⟩
    · rw [if_neg hkey, mapAdd, if_neg hnull, if_neg hkey]
      exact ⟨m, rfl, hm⟩
  | remove e key ih =>
    refine (ih h).bind rfl fun m f hm => ?_
    by_cases hnull : key.isNull = true
    · rw [asMap, mRemove, if_pos hnull, if_pos hnull]
      rfl
    · rw [if_neg hnull]
      exact evaluates_remove hm (by simpa using hnull)
  | tomap e ih =>
    rw [MapExpr.evaluate, MapExpr.contents, ← Option.bind_fun_some e.contents]
    exact (ih h).bind rfl fun m f hm => ⟨m, rfl, hm⟩

/-- What the builtins that ask a map answer, and a bracket with a default, for a map with this content. -/
structure AnswersFor (v : YCPValue) (f : Contents) : Prop where
  map : ∃ m, v = map m ∧ MapOrdered m
  haskey : ∀ key, key.isNull = false → mHaskey (asMap v) key = boolean (f key).isSome
  bracket : ∀ key default, bracketRead v [key] default =
    if ((f key).getD null).isNull then default else (f key).getD null
  size : mSize v = integer (Int64.ofNat {key | f key ≠ none}.ncard)
  isempty : ∃ b, mIsempty (asMap v) = some (boolean b) ∧ (b = true ↔ ∀ key, f key = none)

lemma answersFor (hm : HoldsContents m f) : AnswersFor (map m) f where
  map := ⟨m, rfl, hm.keys, hm.increasing⟩
  haskey key hnull := by
    rw [asMap, mHaskey, if_neg (by simp [hnull]), mapHasKey, ← holds_find hm hnull, Option.isSome_map]
  bracket key default := by
    have hnone : f null = none := holds_eq_none hm (by simp [isMapKey])
    by_cases hnull : key.isNull = true
    · obtain rfl : key = null := by
        cases key <;> simp [isNull] at hnull
        rfl
      simp [bracketRead, bracketLoop, bracketStep, isNull, hnone]
    · have hfind := holds_find hm (by simpa using hnull : key.isNull = false)
      have hvalue : mapValue m key = (f key).getD null := by rw [mapValue_eq, hfind]
      rw [bracketRead, bracketLoop, bracketStep, if_neg hnull, hvalue]
      generalize (f key).getD null = w
      cases w with
      | null => simp [isNull]
      | _ => simp [isNull, bracketLoop]
  size := by rw [mSize, mapSize, orders_keyLess.length_eq hm]
  isempty := by
    refine ⟨m.isEmpty, rfl, ?_⟩
    rw [List.isEmpty_iff]
    constructor
    · rintro rfl
      intro key
      by_contra hne
      obtain ⟨v, hv⟩ := Option.ne_none_iff_exists'.mp hne
      cases (hm.holds key v).mp hv
    · intro hnone
      refine List.eq_nil_iff_forall_not_mem.mpr fun e he => ?_
      have hsome := (hm.holds e.1 e.2).mpr he
      rw [hnone] at hsome
      cases hsome

/-- An expression of map builtins is nil exactly where its contents are undefined, else a map with these contents,
and any other expression with these contents has the same value. -/
theorem mapExpr_contents {e : MapExpr} (h : e.Wellformed) :
    (e.contents = none → e.evaluate = some null) ∧
      (∀ f, e.contents = some f → ∃ v, e.evaluate = some v ∧ AnswersFor v f) ∧
        ∀ e' : MapExpr, e'.Wellformed → e'.contents = e.contents → e'.evaluate = e.evaluate := by
  have heval := evaluates_contents h
  refine ⟨fun hnone => ?_, fun f hf => ?_, fun e' h' hsame => ?_⟩
  · rwa [hnone] at heval
  · rw [hf] at heval
    obtain ⟨m, hm, hholds⟩ := heval
    exact ⟨map m, hm, answersFor hholds⟩
  · have heval' := evaluates_contents h'
    rw [hsame] at heval'
    cases hf : e.contents with
    | none =>
      rw [hf] at heval heval'
      exact Eq.trans heval' (Eq.symm heval)
    | some f =>
      rw [hf] at heval heval'
      obtain ⟨m, hm, hholds⟩ := heval
      obtain ⟨m', hm', hholds'⟩ := heval'
      rw [hm, hm', orders_keyLess.represents_unique hholds' hholds]

/-- `union ($[1:2], remove ($[1:2], 1))`. -/
def mapExprExample : MapExpr :=
  .union (.literal [(integer 1, integer 2)]) (.remove (.literal [(integer 1, integer 2)]) (integer 1))

lemma wellformed_mapExprExample : mapExprExample.Wellformed := by
  have hone : MapOrdered [(integer 1, integer 2)] := ⟨by simp [isMapKey], List.pairwise_singleton _ _⟩
  exact ⟨hone, hone⟩

theorem mapExpr_contents_example :
    (mapExprExample.contents = none → mapExprExample.evaluate = some null) ∧
      (∀ f, mapExprExample.contents = some f → ∃ v, mapExprExample.evaluate = some v ∧ AnswersFor v f) ∧
        ∀ e' : MapExpr, e'.Wellformed → e'.contents = mapExprExample.contents →
          e'.evaluate = mapExprExample.evaluate :=
  mapExpr_contents wellformed_mapExprExample

end Contents

end YastCore
