import YastCore.Interp.State
import YastCore.Value.WellFormed

/-!
# The builtins that add an element

`l_add`, `t_add`, `m_addmap`, `p_add` and `p_plus` with their declarations. Only the `add` of lists has
the flag `DECL_NIL`, so only to it the interpreter passes nil and null.
-/

namespace YastCore.Interp

open YCPValue

/-- `YCPListRep::functionalAdd`, appending; `none` where `reserve` gets a negative size and throws. -/
def functionalAdd (l : List YCPValue) (value : YCPValue) : Option (List YCPValue) :=
  if toInt32 (l.length + 1) < 0 then none
  else some ((List.range (listSize l).toNat).map (fun i : Nat => listValue l i) ++ [value])

def lAdd : YCPValue → YCPValue → BuiltinRun
  | list l, value => (functionalAdd l value).elim .crash fun newlist => .ret (list newlist)
  | _, _ => .ret null

/-- A value that is no term would be read as one. -/
def tAdd (term value : YCPValue) : BuiltinRun :=
  if term.isNull || value.isNull then .ret null
  else
    match term with
    | .term name l => (functionalAdd l value).elim .crash fun newlist => .ret (.term name newlist)
    | _ => .crash

def mAddmap (map key value : YCPValue) : BuiltinRun :=
  if map.isNull then .ret null
  else if key.isNull then .ret null
  else
    match map with
    | .map m => .ret (mapFunctionalAdd m key value)
    | _ => .crash

def pAdd (path s : YCPValue) : BuiltinRun :=
  if path.isNull || s.isNull then .ret null
  else
    match path, s with
    | .path p, string t => .ret (.path (p ++ [⟨t, true, PathComponent.text_of_complex t⟩]))
    | _, _ => .crash

def pPlus (path1 path2 : YCPValue) : BuiltinRun :=
  if path1.isNull || path2.isNull then .ret null
  else
    match path1, path2 with
    | .path p, .path q => .ret (.path (p ++ q))
    | _, _ => .crash

def binary (f : YCPValue → YCPValue → BuiltinRun) : List YCPValue → BuiltinRun
  | [a, b] => f a b
  | _ => .crash

def ternary (f : YCPValue → YCPValue → YCPValue → BuiltinRun) : List YCPValue → BuiltinRun
  | [a, b, c] => f a b c
  | _ => .crash

/-- The declarations of the operator `+` and the builtin `add` that add an element. -/
inductive AddBuiltin where
  | listAdd
  | listPlus
  | listPlusAny
  | termAdd
  | mapAdd
  | pathAdd
  | pathAddPath
deriving DecidableEq

namespace AddBuiltin

def constant : Qualifiers := ⟨true, false⟩

/-- The types of the parameters, as the declarations write them. -/
def parameters : AddBuiltin → List YType
  | listAdd => [.listT (.flexT unqualified) constant, .flexT constant]
  | listPlus => [.listT (.flexT unqualified) constant, .flexT constant]
  | listPlusAny => [.listT (.base .anyT unqualified) constant, .base .anyT unqualified]
  | termAdd => [.base .termT unqualified, .base .anyT constant]
  | mapAdd => [.mapT (.nFlexT 1 unqualified) (.nFlexT 2 unqualified) constant, .nFlexT 1 constant,
      .nFlexT 2 constant]
  | pathAdd => [.base .pathT unqualified, .base .stringT unqualified]
  | pathAddPath => [.base .pathT unqualified, .base .pathT unqualified]

def function : AddBuiltin → List YCPValue → BuiltinRun
  | listAdd => binary lAdd
  | listPlus => binary lAdd
  | listPlusAny => binary lAdd
  | termAdd => binary tAdd
  | mapAdd => ternary mAddmap
  | pathAdd => binary pAdd
  | pathAddPath => binary pPlus

def declaration (a : AddBuiltin) : Builtin where
  nil := a = listAdd
  noeval := false
  parameters := a.parameters
  ptr := some a.function
  handler := none

/-- The arguments with which the builtin puts a null into a container. -/
def storesNull : AddBuiltin → List YCPValue → Bool
  | listAdd, [list _, value] => value.isNull
  | listPlus, [list _, value] => value.isNull
  | listPlusAny, [list _, value] => value.isNull
  | mapAdd, [map _, _, value] => value.isNull
  | _, _ => false

end AddBuiltin

/-! ### Results -/

lemma functionalAdd_eq {l : List YCPValue} (h : 0 ≤ toInt32 (l.length + 1)) (value : YCPValue) :
    functionalAdd l value = some (visited l ++ [value]) := by
  rw [functionalAdd, if_neg (Int.not_lt.mpr h)]
  exact congrArg (fun elements => some (elements ++ [value])) (map_range_listValue l)

lemma functionalAdd_of_neg {l : List YCPValue} (h : toInt32 (l.length + 1) < 0) (value : YCPValue) :
    functionalAdd l value = none := if_pos h

lemma wellFormed_functionalAdd {l newlist : List YCPValue} (h : ∀ v ∈ l, WellFormed v) {value : YCPValue}
    (hvalue : WellFormed value) (hnew : functionalAdd l value = some newlist) :
    ∀ v ∈ newlist, WellFormed v := by
  by_cases hsize : toInt32 (l.length + 1) < 0
  · rw [functionalAdd_of_neg hsize] at hnew
    cases hnew
  · rw [functionalAdd_eq (Int.not_lt.mp hsize)] at hnew
    rw [← Option.some.inj hnew]
    exact List.forall_mem_append.mpr
      ⟨fun v hv => h v (List.mem_of_mem_take hv), List.forall_mem_singleton.mpr hvalue⟩

/-- Given sound values by what it asks for, the builtin returns and stores sound values. -/
def SoundRun : BuiltinRun → Prop
  | .ret v => Sound v
  | .crash => True
  | .evaluate _ next => ∀ v, Sound v → SoundRun (next v)
  | .value _ next => ∀ v, Sound v → SoundRun (next v)
  | .setValue _ v next => Sound v ∧ SoundRun next
  | .outside act next => ∀ world, SoundRun (next (act world).1)

lemma soundRun_null : SoundRun (.ret null) := sound_null

lemma soundRun_lAdd {l value : YCPValue} (hl : Sound l)
    (hvalue : ∀ elements, l = list elements → WellFormed value) : SoundRun (lAdd l value) := by
  cases l with
  | list elements =>
    rw [lAdd]
    cases hnew : functionalAdd elements value with
    | none => exact trivial
    | some newlist =>
      refine Or.inr (.list ?_)
      exact wellFormed_functionalAdd (hl.wellFormed rfl).elements (hvalue elements rfl) hnew
  | _ => exact soundRun_null

lemma soundRun_tAdd {t value : YCPValue} (ht : Sound t) (hvalue : Sound value) :
    SoundRun (tAdd t value) := by
  unfold tAdd
  split
  · exact soundRun_null
  next hnull =>
    simp only [Bool.or_eq_true, not_or, Bool.not_eq_true] at hnull
    split
    next name l =>
      cases hnew : functionalAdd l value with
      | none => exact trivial
      | some newlist =>
        refine Or.inr (.term ?_)
        exact wellFormed_functionalAdd (ht.wellFormed rfl).args (hvalue.wellFormed hnull.2) hnew
    · exact trivial

lemma soundRun_mAddmap {m key value : YCPValue} (hm : Sound m)
    (hvalue : ∀ entries, m = map entries → WellFormed value) : SoundRun (mAddmap m key value) := by
  unfold mAddmap
  split
  · exact soundRun_null
  split
  · exact soundRun_null
  split
  next entries _ =>
    exact sound_mapFunctionalAdd (hm.wellFormed rfl) key (hvalue entries rfl)
  · exact trivial

lemma soundRun_pAdd (path s : YCPValue) : SoundRun (pAdd path s) := by
  unfold pAdd
  split
  · exact soundRun_null
  split
  · exact sound_plain rfl
  · exact trivial

lemma soundRun_pPlus (path1 path2 : YCPValue) : SoundRun (pPlus path1 path2) := by
  unfold pPlus
  split
  · exact soundRun_null
  split
  · exact sound_plain rfl
  · exact trivial

lemma soundRun_binary {f : YCPValue → YCPValue → BuiltinRun} {args : List YCPValue}
    (h : ∀ v w, args = [v, w] → SoundRun (f v w)) : SoundRun (binary f args) := by
  unfold binary
  split
  next v w => exact h v w rfl
  · exact trivial

lemma soundRun_ternary {f : YCPValue → YCPValue → YCPValue → BuiltinRun} {args : List YCPValue}
    (h : ∀ v w x, args = [v, w, x] → SoundRun (f v w x)) : SoundRun (ternary f args) := by
  unfold ternary
  split
  next v w x => exact h v w x rfl
  · exact trivial

/-- The three declarations of `l_add` differ in their types only. -/
lemma soundRun_listAdd {args : List YCPValue} (hargs : ∀ v ∈ args, Sound v)
    (hnull : ∀ l value, args = [list l, value] → value.isNull = false) :
    SoundRun (binary lAdd args) := by
  refine soundRun_binary fun l value hl => ?_
  subst hl
  refine soundRun_lAdd (hargs l (by simp)) fun elements helements => ?_
  subst helements
  exact (hargs value (by simp)).wellFormed (hnull elements value rfl)

/-- What an `add` returns for sound arguments is sound, unless it stores a null. -/
theorem AddBuiltin.soundRun_function (a : AddBuiltin) {args : List YCPValue} (hargs : ∀ v ∈ args, Sound v)
    (hnull : a.storesNull args = false) : SoundRun (a.function args) := by
  cases a with
  | listAdd =>
    refine soundRun_listAdd hargs fun l value hl => ?_
    subst hl
    exact hnull
  | listPlus =>
    refine soundRun_listAdd hargs fun l value hl => ?_
    subst hl
    exact hnull
  | listPlusAny =>
    refine soundRun_listAdd hargs fun l value hl => ?_
    subst hl
    exact hnull
  | termAdd =>
    refine soundRun_binary fun t value ht => ?_
    subst ht
    exact soundRun_tAdd (hargs t (by simp)) (hargs value (by simp))
  | mapAdd =>
    refine soundRun_ternary fun m key value hm => ?_
    subst hm
    refine soundRun_mAddmap (hargs m (by simp)) fun entries hentries => ?_
    subst hentries
    exact (hargs value (by simp)).wellFormed hnull
  | pathAdd => exact soundRun_binary fun path s _ => soundRun_pAdd path s
  | pathAddPath => exact soundRun_binary fun path1 path2 _ => soundRun_pPlus path1 path2

end YastCore.Interp
