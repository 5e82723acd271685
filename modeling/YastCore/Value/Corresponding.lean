import Mathlib.Data.List.Forall2
import Mathlib.Logic.Relator
import YastCore.Type.Value
import YastCore.Value.Index

/-!
# Values that correspond

Two programs may keep the same code at different addresses and the same symbols in different namespaces.
Their values correspond when they differ in nothing else, and no operation on values tells them apart.
-/

namespace YastCore

/-- Which code and which symbol entries of two programs stand for each other. -/
structure Correspondence where
  code : CodePtr → CodePtr → Prop
  entry : EntryRef → EntryRef → Prop
  code_unique : Relator.BiUnique code
  entry_unique : Relator.BiUnique entry

namespace YCPValue

mutual

/-- The values differ in the addresses of code and symbol entries only. -/
inductive Corresponds (C : Correspondence) : YCPValue → YCPValue → Prop where
  | null : Corresponds C null null
  | void : Corresponds C void void
  | boolean (b : Bool) : Corresponds C (boolean b) (boolean b)
  | integer (i : Int64) : Corresponds C (integer i) (integer i)
  | string (t : Text) : Corresponds C (string t) (string t)
  | byteblock (b : List UInt8) : Corresponds C (byteblock b) (byteblock b)
  | path (p : List PathComponent) : Corresponds C (path p) (path p)
  | symbol (t : Text) : Corresponds C (symbol t) (symbol t)
  | list {l l' : List YCPValue} (h : List.Forall₂ (Corresponds C) l l') : Corresponds C (list l) (list l')
  | term (n : Text) {l l' : List YCPValue} (h : List.Forall₂ (Corresponds C) l l') :
      Corresponds C (term n l) (term n l')
  | map {m m' : List (YCPValue × YCPValue)} (h : List.Forall₂ (EntryCorresponds C) m m') :
      Corresponds C (map m) (map m')
  | code {c c' : CodePtr} (h : C.code c c') : Corresponds C (code c) (code c')
  | ret : Corresponds C ret ret
  | brk : Corresponds C brk brk
  | entry {e e' : EntryRef} (h : C.entry e e') : Corresponds C (entry e) (entry e')
  | error : Corresponds C error error
  | reference {e e' : EntryRef} (h : C.entry e e') : Corresponds C (reference e) (reference e')

/-- The entries of a map and of its counterpart. -/
inductive EntryCorresponds (C : Correspondence) : YCPValue × YCPValue → YCPValue × YCPValue → Prop where
  | mk {k k' v v' : YCPValue} (key : Corresponds C k k') (value : Corresponds C v v') :
      EntryCorresponds C (k, v) (k', v')

end

namespace Corresponds

variable {C : Correspondence} {v v' w w' : YCPValue} {l l' : List YCPValue} {m m' : List (YCPValue × YCPValue)}

lemma isNull_eq (h : Corresponds C v v') : v.isNull = v'.isNull := by
  cases h <;> rfl

lemma isVoid_eq (h : Corresponds C v v') : v.isVoid = v'.isVoid := by
  cases h <;> rfl

lemma isReturn_eq (h : Corresponds C v v') : v.isReturn = v'.isReturn := by
  cases h <;> rfl

lemma isBreak_eq (h : Corresponds C v v') : v.isBreak = v'.isBreak := by
  cases h <;> rfl

lemma isMapKey_eq (h : Corresponds C v v') : v.isMapKey = v'.isMapKey := by
  cases h <;> rfl

lemma valuetype_eq (h : Corresponds C v v') : v.valuetype = v'.valuetype := by
  cases h <;> rfl

/-! ### Comparisons -/

lemma compareElements_eq {b b' : List YCPValue} (n : Nat) (hl : List.Forall₂ (Corresponds C) l l')
    (hb : List.Forall₂ (Corresponds C) b b')
    (ih : ∀ v ∈ l, ∀ {v' w w'}, Corresponds C v v' → Corresponds C w w' → compare v w = compare v' w') :
    compareElements n l b = compareElements n l' b' := by
  induction n generalizing l l' b b' with
  | zero => simp [compareElements]
  | succ n ihn =>
    cases hl with
    | nil => simp [compareElements]
    | cons hv hl =>
      cases hb with
      | nil => simp [compareElements]
      | cons hw hb =>
        rw [compareElements, compareElements, ih _ List.mem_cons_self hv hw,
          ihn hl hb fun v h => ih v (List.mem_cons_of_mem _ h)]

lemma compareEntries_eq {b b' : List (YCPValue × YCPValue)} (hm : List.Forall₂ (EntryCorresponds C) m m')
    (hb : List.Forall₂ (EntryCorresponds C) b b')
    (ih : ∀ e ∈ m, (∀ {v' w w'}, Corresponds C e.1 v' → Corresponds C w w' → compare e.1 w = compare v' w') ∧
      ∀ {v' w w'}, Corresponds C e.2 v' → Corresponds C w w' → compare e.2 w = compare v' w') :
    compareEntries m b = compareEntries m' b' := by
  induction hm generalizing b b' with
  | nil => cases hb <;> simp [compareEntries]
  | cons he hm ihm =>
    cases hb with
    | nil => simp [compareEntries]
    | cons hf hb =>
      obtain ⟨ihkey, ihvalue⟩ := ih _ List.mem_cons_self
      obtain ⟨hkey, hvalue⟩ := he
      obtain ⟨hkey', hvalue'⟩ := hf
      rw [compareEntries, compareEntries, ihkey hkey hkey', ihvalue hvalue hvalue',
        ihm hb fun e h => ih e (List.mem_cons_of_mem _ h)]

/-- `YCPValueRep::compare` does not look at addresses. -/
theorem compare_eq (h : Corresponds C v v') (hw : Corresponds C w w') : compare v w = compare v' w' := by
  induction v using YCPValue.induct generalizing v' w w' with
  | list l ih =>
    cases h with
    | list hl =>
      cases hw with
      | list hm =>
        rw [compare_list, compare_list, hl.length_eq, hm.length_eq]
        refine congrArg _ (funext fun n => ?_)
        exact compareElements_eq n hl hm fun v hv {_ _ _} => ih v hv
      | _ => rfl
  | term n l ih =>
    cases h with
    | term _ hl =>
      cases hw with
      | term _ hm =>
        rw [compare_term, compare_term, hl.length_eq, hm.length_eq]
        refine congrArg₂ _ (congrArg _ (funext fun n => ?_)) rfl
        exact compareElements_eq n hl hm fun v hv {_ _ _} => ih v hv
      | _ => rfl
  | map m ih =>
    cases h with
    | map hl =>
      cases hw with
      | map hm =>
        rw [compare_map, compare_map, hl.length_eq, hm.length_eq]
        refine congrArg _ ?_
        exact compareEntries_eq hl hm fun e he => ⟨fun {_ _ _} => (ih e he).1, fun {_ _ _} => (ih e he).2⟩
      | _ => rfl
  | _ =>
    cases h
    all_goals cases hw <;> rfl

lemma keyLess_eq (h : Corresponds C v v') (hw : Corresponds C w w') : keyLess v w = keyLess v' w' := by
  rw [keyLess, keyLess, compare_eq h hw]

lemma ite {p : Prop} [Decidable p] (h : Corresponds C v v') (hw : Corresponds C w w') :
    Corresponds C (if p then v else w) (if p then v' else w') := by
  split
  · exact h
  · exact hw

/-! ### Maps -/

lemma mapInsert (hkey : Corresponds C v v') (hvalue : Corresponds C w w')
    (hm : List.Forall₂ (EntryCorresponds C) m m') :
    List.Forall₂ (EntryCorresponds C) (YCPValue.mapInsert v w m) (YCPValue.mapInsert v' w' m') := by
  induction hm with
  | nil => exact .cons ⟨hkey, hvalue⟩ .nil
  | cons he hm ih =>
    obtain ⟨hk, hv⟩ := he
    rw [YCPValue.mapInsert, YCPValue.mapInsert, keyLess_eq hk hkey, keyLess_eq hkey hk]
    split
    · exact .cons ⟨hk, hv⟩ ih
    · split
      · exact .cons ⟨hkey, hvalue⟩ (.cons ⟨hk, hv⟩ hm)
      · exact .cons ⟨hk, hvalue⟩ hm

lemma mapAdd (hkey : Corresponds C v v') (hvalue : Corresponds C w w')
    (hm : List.Forall₂ (EntryCorresponds C) m m') :
    Option.Rel (List.Forall₂ (EntryCorresponds C)) (YCPValue.mapAdd m v w) (YCPValue.mapAdd m' v' w') := by
  rw [YCPValue.mapAdd, YCPValue.mapAdd, hkey.isNull_eq, hkey.isMapKey_eq]
  split
  · exact .none
  · split
    · exact .some (mapInsert hkey hvalue hm)
    · exact .some hm

lemma mapFunctionalAdd (hkey : Corresponds C v v') (hvalue : Corresponds C w w')
    (hm : List.Forall₂ (EntryCorresponds C) m m') :
    Corresponds C (YCPValue.mapFunctionalAdd m v w) (YCPValue.mapFunctionalAdd m' v' w') := by
  rw [YCPValue.mapFunctionalAdd, YCPValue.mapFunctionalAdd, hkey.isMapKey_eq]
  exact .ite (.map (mapInsert hkey hvalue hm)) .null

lemma mapValue (hm : List.Forall₂ (EntryCorresponds C) m m') (hkey : Corresponds C v v') :
    Corresponds C (YCPValue.mapValue m v) (YCPValue.mapValue m' v') := by
  unfold YCPValue.mapValue
  induction hm with
  | nil => exact .null
  | @cons e e' m m' he hm ih =>
    obtain ⟨hk, hv⟩ := he
    simp only [List.find?_cons, keyLess_eq hk hkey, keyLess_eq hkey hk]
    generalize (!keyLess _ v' && !keyLess v' _) = found
    cases found with
    | true => exact hv
    | false => exact ih

/-! ### Lists -/

lemma getD (hl : List.Forall₂ (Corresponds C) l l') (k : Nat) :
    Corresponds C (l.getD k YCPValue.null) (l'.getD k YCPValue.null) := by
  induction hl generalizing k with
  | nil => exact .null
  | cons hv hl ih =>
    cases k with
    | zero => exact hv
    | succ k => exact ih k

lemma listValue (hl : List.Forall₂ (Corresponds C) l l') (n : Int) :
    Corresponds C (YCPValue.listValue l n) (YCPValue.listValue l' n) := by
  rw [YCPValue.listValue, YCPValue.listValue, listSize, listSize, hl.length_eq]
  exact .ite .null (getD hl _)

lemma set (hl : List.Forall₂ (Corresponds C) l l') (h : Corresponds C v v') (k : Nat) :
    List.Forall₂ (Corresponds C) (l.set k v) (l'.set k v') := by
  induction hl generalizing k with
  | nil => exact .nil
  | cons hw hl ih =>
    cases k with
    | zero => exact .cons h hl
    | succ k => exact .cons hw (ih k)

lemma replicate (h : Corresponds C v v') (k : Nat) :
    List.Forall₂ (Corresponds C) (List.replicate k v) (List.replicate k v') := by
  induction k with
  | zero => exact .nil
  | succ k ih => exact .cons h ih

lemma listSet (hl : List.Forall₂ (Corresponds C) l l') (h : Corresponds C v v') (i : Int) :
    List.Forall₂ (Corresponds C) (YCPValue.listSet l i v) (YCPValue.listSet l' i v') := by
  rw [YCPValue.listSet, YCPValue.listSet, hl.length_eq]
  split
  · exact hl
  · exact set (List.rel_append hl (replicate .void _)) h _

/-! ### Brackets -/

lemma bracketElement (hl : List.Forall₂ (Corresponds C) l l') (h : Corresponds C v v') :
    Corresponds C (YCPValue.bracketElement l v) (YCPValue.bracketElement l' v') := by
  cases h with
  | integer i =>
    rw [YCPValue.bracketElement, YCPValue.bracketElement, listSize, listSize, hl.length_eq]
    exact .ite .null (listValue hl _)
  | _ => exact .null

lemma bracketStep (hw : Corresponds C w w') (h : Corresponds C v v') :
    Corresponds C (YCPValue.bracketStep w v) (YCPValue.bracketStep w' v') := by
  unfold YCPValue.bracketStep
  rw [h.isNull_eq]
  refine .ite .null ?_
  cases hw with
  | list hl => exact bracketElement hl h
  | term _ hl => exact bracketElement hl h
  | map hm => exact mapValue hm h
  | _ => exact .null

/-- A bracket read. -/
lemma bracketLoop (hw : Corresponds C w w') (hl : List.Forall₂ (Corresponds C) l l') :
    Corresponds C (YCPValue.bracketLoop w l) (YCPValue.bracketLoop w' l') := by
  induction hl generalizing w w' with
  | nil => exact hw
  | cons hv hl ih =>
    have hstep := bracketStep hw hv
    simp only [YCPValue.bracketLoop]
    rw [hstep.isNull_eq]
    exact .ite .null (ih hstep)

/-- The null handle goes into a container as nil. -/
lemma orVoid (h : Corresponds C v v') :
    Corresponds C (if v.isNull then .void else v) (if v'.isNull then .void else v') := by
  rw [h.isNull_eq]
  exact .ite .void h

/-- A bracket assignment. -/
theorem commit (hw : Corresponds C w w') (hl : List.Forall₂ (Corresponds C) l l') (h : Corresponds C v v') :
    Corresponds C (YCPValue.commit w l v) (YCPValue.commit w' l' v') := by
  induction hl generalizing w w' with
  | nil => exact h
  | @cons arg arg' rest rest' harg hrest ih =>
    have hempty : rest.isEmpty = rest'.isEmpty := by
      cases hrest <;> rfl
    rw [YCPValue.commit.eq_def, YCPValue.commit.eq_def]
    simp only [hw.isNull_eq, harg.isNull_eq, hempty]
    refine .ite .null (.ite .null ?_)
    cases hw with
    | list hm =>
      cases harg with
      | integer i =>
        dsimp only
        have hval := ih (listValue hm (narrow i))
        rw [hval.isNull_eq]
        exact .ite (.list (listSet hm h.orVoid _)) (.ite .null (.list (listSet hm hval _)))
      | _ => exact .null
    | term _ hm =>
      cases harg with
      | integer i =>
        dsimp only
        have hval := ih (listValue hm (narrow i))
        rw [hval.isNull_eq]
        exact .ite (.term _ (listSet hm h.orVoid _)) (.ite .null (.term _ (listSet hm hval _)))
      | _ => exact .null
    | map hm =>
      dsimp only
      have hval := ih (mapValue hm harg)
      rw [hval.isNull_eq]
      exact .ite (mapFunctionalAdd harg h.orVoid hm) (.ite .null (mapFunctionalAdd harg hval hm))
    | _ => exact .null

/-! ### Types -/

lemma all_eq {f f' : YCPValue → Bool} (hl : List.Forall₂ (Corresponds C) l l')
    (h : ∀ v ∈ l, ∀ {v'}, Corresponds C v v' → f v = f' v') : l.all f = l'.all f' := by
  induction hl with
  | nil => rfl
  | cons hv hl ih =>
    rw [List.all_cons, List.all_cons, h _ List.mem_cons_self hv, ih fun v hv => h v (List.mem_cons_of_mem _ hv)]

lemma all_entries_eq {f f' g g' : YCPValue → Bool} (hm : List.Forall₂ (EntryCorresponds C) m m')
    (h : ∀ e ∈ m, (∀ {v'}, Corresponds C e.1 v' → f e.1 = f' v') ∧ ∀ {v'}, Corresponds C e.2 v' → g e.2 = g' v') :
    (m.all fun e => f e.1 && g e.2) = m'.all fun e => f' e.1 && g' e.2 := by
  induction hm with
  | nil => rfl
  | cons he hm ih =>
    obtain ⟨hkey, hvalue⟩ := he
    obtain ⟨hf, hg⟩ := h _ List.mem_cons_self
    rw [List.all_cons, List.all_cons, hf hkey, hg hvalue, ih fun e he => h e (List.mem_cons_of_mem _ he)]

/-- `Type::matchvalue` does not look into code. -/
lemma matchvalue_eq (h : Corresponds C v v') (t : YType) : t.matchvalue v = t.matchvalue v' := by
  induction v using YCPValue.induct generalizing v' t with
  | list l ih =>
    cases h with
    | list hl =>
      cases t with
      | listT e q =>
        have hall := all_eq (f := fun v => decide (0 ≤ e.matchvalue v)) hl
          fun v hv {v'} h => congrArg (fun n : Int => decide (0 ≤ n)) (ih v hv h e)
        simp [YType.matchvalue, isNull, hall]
      | _ => rfl
  | map m ih =>
    cases h with
    | map hm =>
      cases t with
      | mapT k e q =>
        have hall := all_entries_eq (f := fun v => decide (0 ≤ k.matchvalue v))
          (g := fun v => decide (0 ≤ e.matchvalue v)) hm fun e' he =>
            ⟨fun {v'} h => congrArg (fun n : Int => decide (0 ≤ n)) ((ih e' he).1 h k),
              fun {v'} h => congrArg (fun n : Int => decide (0 ≤ n)) ((ih e' he).2 h e)⟩
        have hstep (m : List (YCPValue × YCPValue)) : (YType.mapT k e q).matchvalue (.map m) =
            if e.isAny || e.isUnspec then 0
            else if m.all fun e' => 0 ≤ k.matchvalue e'.1 && 0 ≤ e.matchvalue e'.2 then 0 else -1 := rfl
        rw [hstep, hstep, hall]
      | _ => rfl
  | _ =>
    cases h
    all_goals cases t <;> rfl

/-- A cast looks at code to tell whether it is a function. -/
lemma canPropagate_eq {isFunction isFunction' : CodePtr → Bool}
    (hfunction : ∀ c c', C.code c c' → isFunction c = isFunction' c') (h : Corresponds C v v') (t : YType) :
    YType.canPropagate isFunction v t = YType.canPropagate isFunction' v' t := by
  induction v using YCPValue.induct generalizing v' t with
  | list l ih =>
    cases h with
    | list hl =>
      cases t with
      | listT e q =>
        have hall := all_eq (f := fun v => YType.canPropagate isFunction v e) hl fun v hv {v'} h => ih v hv h e
        simp [YType.canPropagate, isNull, isVoid, valuetype, hall]
      | _ => rfl
  | map m ih =>
    cases h with
    | map hm =>
      cases t with
      | mapT k e q =>
        have hall := all_entries_eq (f := fun v => YType.canPropagate isFunction v k)
          (g := fun v => YType.canPropagate isFunction v e) hm fun e' he =>
            ⟨fun {v'} h => (ih e' he).1 h k, fun {v'} h => (ih e' he).2 h e⟩
        simp [YType.canPropagate, isNull, isVoid, valuetype, hall]
      | _ => rfl
  | code c =>
    cases h with
    | code hc => cases t <;> simp [YType.canPropagate, isNull, isVoid, valuetype, hfunction _ _ hc]
  | _ =>
    cases h
    all_goals cases t <;> rfl

end Corresponds

end YCPValue

end YastCore
