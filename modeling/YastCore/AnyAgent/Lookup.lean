import YastCore.Transport.Scanner
import YastCore.Value.Container

/-!
# The sub-value of a path

`AnyAgent::readValueByPath` walks down a value. A component that begins with a digit selects by number in
lists and by its text in maps, any other one selects by its text in maps only.
-/

namespace YastCore.AnyAgent

open Transport YCPValue

/-- `isdigit (s[0])` -/
def isIndex (s : Text) : Bool := (s.head?.map isDigit).getD false

def indexNumber (s : Text) : ℕ := digitsValue 10 (s.takeWhile isDigit)

/-- `atoi` of a text that begins with a digit. It promises nothing for a number that is no int. -/
def atoi (s : Text) : Option ℕ := if indexNumber s < 2 ^ 31 then some (indexNumber s) else none

/-- The loop of `readValueByPath` over the components that are left; `none` where a null handle is
dereferenced or a number is no int. -/
def readValueByPath (sub_value : YCPValue) : List Text → Option YCPValue
  | [] => some sub_value
  | s :: rest =>
    if sub_value.isNull then none
    else if isIndex s then
      match sub_value with
      | list l =>
        match atoi s with
        | none => none
        | some num => if l.length < num then some void else readValueByPath (l.getD num null) rest
      | map m =>
        let v := mapValue m (string s)
        if v.isNull then some void else readValueByPath v rest
      | _ => readValueByPath sub_value rest
    else
      match sub_value with
      | map m => readValueByPath (mapValue m (string s)) rest
      | _ => some void

/-! ### What a path denotes -/

/-- The value itself, where there is one. -/
def existing (v : YCPValue) : Option YCPValue := if v.isNull then none else some v

/-- The part of a value that a component names. -/
def subValue (v : YCPValue) (s : Text) : Option YCPValue :=
  match v with
  | list l => if isIndex s then existing (l.getD (indexNumber s) null) else none
  | map m => existing (mapValue m (string s))
  | _ => none

def denoted (v : YCPValue) : List Text → YCPValue
  | [] => v
  | s :: rest =>
    match subValue v s with
    | some w => denoted w rest
    | none => void

def isScalar : YCPValue → Bool
  | list _ => false
  | map _ => false
  | _ => true

/-- On its way down the path comes to one of the places where the loop goes wrong. -/
inductive Strays : YCPValue → List Text → Prop where
  /-- The number is the size of the list, which the check lets pass. -/
  | behind {l : List YCPValue} {s : Text} (path : List Text) (index : isIndex s = true)
      (passes : indexNumber s ≤ l.length) (nothing : (l.getD (indexNumber s) null).isNull = true) :
      Strays (list l) (s :: path)
  | noInt {l : List YCPValue} {s : Text} (path : List Text) (index : isIndex s = true)
      (large : 2 ^ 31 ≤ indexNumber s) : Strays (list l) (s :: path)
  /-- A name that is no key of the map. -/
  | missing {m : List (YCPValue × YCPValue)} {s : Text} (path : List Text) (name : isIndex s = false)
      (nothing : (mapValue m (string s)).isNull = true) : Strays (map m) (s :: path)
  /-- Nothing but numbers below a scalar, which they leave as it is. -/
  | scalar {v : YCPValue} {s : Text} {path : List Text} (scalar : isScalar v = true) (notNil : v ≠ void)
      (indexes : ∀ t ∈ s :: path, isIndex t = true) : Strays v (s :: path)
  | down {v w : YCPValue} {s : Text} {path : List Text} (sub : subValue v s = some w) (strays : Strays w path) :
      Strays v (s :: path)

/-! ### The loop at a scalar, a list and a map -/

section

variable {v : YCPValue} {s : Text} {path : List Text}

lemma existing_eq_some {w : YCPValue} : existing v = some w ↔ v.isNull = false ∧ v = w := by
  unfold existing
  cases v.isNull <;> simp

lemma existing_eq_none : existing v = none ↔ v.isNull = true := by
  unfold existing
  cases v.isNull <;> simp

lemma subValue_notNull {w : YCPValue} (h : subValue v s = some w) : w.isNull = false := by
  cases v with
  | list l =>
    rw [subValue] at h
    split at h
    · obtain ⟨hnull, rfl⟩ := existing_eq_some.mp h
      exact hnull
    · cases h
  | map m =>
    obtain ⟨hnull, rfl⟩ := existing_eq_some.mp h
    exact hnull
  | _ => cases h

lemma subValue_scalar (h : isScalar v = true) : subValue v s = none := by
  cases v with
  | list l => cases h
  | map m => cases h
  | _ => rfl

lemma readValueByPath_scalar_index (h : isScalar v = true) (hv : v.isNull = false) (hs : isIndex s = true) :
    readValueByPath v (s :: path) = readValueByPath v path := by
  cases v with
  | null => cases hv
  | list l => cases h
  | map m => cases h
  | _ => simp [readValueByPath, isNull, hs]

lemma readValueByPath_name (h : ∀ m, v ≠ map m) (hv : v.isNull = false) (hs : isIndex s = false) :
    readValueByPath v (s :: path) = some void := by
  cases v with
  | null => cases hv
  | map m => exact absurd rfl (h m)
  | _ => simp [readValueByPath, isNull, hs]

/-- Below a scalar the numbers are passed over up to the first name. -/
lemma readValueByPath_scalar (h : isScalar v = true) (hv : v.isNull = false) (path : List Text) :
    readValueByPath v path = some (if path.all isIndex then v else void) := by
  have hmap : ∀ m, v ≠ map m := by
    rintro m rfl
    cases h
  induction path with
  | nil => rfl
  | cons s path ih =>
    cases hs : isIndex s with
    | true => rw [readValueByPath_scalar_index h hv hs, ih, List.all_cons, hs, Bool.true_and]
    | false =>
      rw [readValueByPath_name hmap hv hs, List.all_cons, hs, Bool.false_and]
      rfl

lemma readValueByPath_list_of_large {l : List YCPValue} (hs : isIndex s = true) (h : 2 ^ 31 ≤ indexNumber s) :
    readValueByPath (list l) (s :: path) = none := by
  have hatoi : atoi s = none := if_neg (Nat.not_lt.mpr h)
  simp [readValueByPath, isNull, hs, hatoi]

lemma readValueByPath_list {l : List YCPValue} (hs : isIndex s = true) (h : indexNumber s < 2 ^ 31) :
    readValueByPath (list l) (s :: path) =
      if l.length < indexNumber s then some void else readValueByPath (l.getD (indexNumber s) null) path := by
  have hatoi : atoi s = some (indexNumber s) := if_pos h
  simp [readValueByPath, isNull, hs, hatoi]

lemma readValueByPath_map_index {m : List (YCPValue × YCPValue)} (hs : isIndex s = true) :
    readValueByPath (map m) (s :: path) =
      if (mapValue m (string s)).isNull then some void else readValueByPath (mapValue m (string s)) path := by
  simp [readValueByPath, isNull, hs]

lemma readValueByPath_map_name {m : List (YCPValue × YCPValue)} (hs : isIndex s = false) :
    readValueByPath (map m) (s :: path) = readValueByPath (mapValue m (string s)) path := by
  simp [readValueByPath, isNull, hs]

lemma denoted_cons_of_none (h : subValue v s = none) : denoted v (s :: path) = void := by
  rw [denoted, h]

lemma denoted_cons_of_some {w : YCPValue} (h : subValue v s = some w) : denoted v (s :: path) = denoted w path := by
  rw [denoted, h]

/-- No path denotes the null handle. -/
lemma denoted_notNull (hv : v.isNull = false) (path : List Text) : (denoted v path).isNull = false := by
  induction path generalizing v with
  | nil => exact hv
  | cons s path ih =>
    cases hsub : subValue v s with
    | none =>
      rw [denoted_cons_of_none hsub]
      rfl
    | some w =>
      rw [denoted_cons_of_some hsub]
      exact ih (subValue_notNull hsub)

/-- A null handle on the way is either returned or dereferenced. -/
lemma readValueByPath_null (hv : v.isNull = true) {w : YCPValue} (hw : w.isNull = false) :
    readValueByPath v path ≠ some w := by
  cases path with
  | nil =>
    rintro heq
    cases heq
    rw [hv] at hw
    cases hw
  | cons s path =>
    have hnone : readValueByPath v (s :: path) = none := by
      cases v <;> first | rfl | cases hv
    rw [hnone]
    exact (Option.some_ne_none w).symm

end

/-! ### Where the loop goes right -/

section

variable {v : YCPValue} {s : Text} {path : List Text}

/-- The loop gives what the path denotes. -/
def FindsDenoted (v : YCPValue) (path : List Text) : Prop := readValueByPath v path = some (denoted v path)

lemma finds_scalar (h : isScalar v = true) (hv : v.isNull = false) (s : Text) (path : List Text) :
    FindsDenoted v (s :: path) ↔ ¬ Strays v (s :: path) := by
  have hnone : subValue v s = none := subValue_scalar h
  rw [FindsDenoted, readValueByPath_scalar h hv, denoted_cons_of_none hnone, Option.some.injEq]
  constructor
  · intro heq hstrays
    cases hstrays with
    | behind => cases h
    | noInt => cases h
    | missing => cases h
    | scalar _ hnil hindexes =>
      rw [if_pos (List.all_eq_true.mpr hindexes)] at heq
      exact hnil heq
    | down hsub _ =>
      rw [hnone] at hsub
      cases hsub
  · intro hnot
    by_cases hall : (s :: path).all isIndex = true
    · rw [if_pos hall]
      by_contra hnil
      exact hnot (.scalar h hnil (List.all_eq_true.mp hall))
    · rw [if_neg hall]

/-- One component that names a part leaves the rest of the path to that part. -/
lemma finds_down {w : YCPValue} (hsub : subValue v s = some w)
    (hread : readValueByPath v (s :: path) = readValueByPath w path)
    (honly : Strays v (s :: path) → Strays w path) (ih : FindsDenoted w path ↔ ¬ Strays w path) :
    FindsDenoted v (s :: path) ↔ ¬ Strays v (s :: path) := by
  have hstrays : Strays v (s :: path) ↔ Strays w path := ⟨honly, Strays.down hsub⟩
  rw [hstrays, ← ih, FindsDenoted, FindsDenoted, hread, denoted_cons_of_some hsub]

/-- A component that leads to a null handle. -/
lemma not_finds_of_null {w : YCPValue} (hv : v.isNull = false) (hw : w.isNull = true)
    (hread : readValueByPath v (s :: path) = readValueByPath w path) : ¬ FindsDenoted v (s :: path) := by
  rw [FindsDenoted, hread]
  exact readValueByPath_null hw (denoted_notNull hv _)

lemma finds_list {l : List YCPValue} (s : Text) (path : List Text)
    (ih : ∀ w : YCPValue, w.isNull = false → (FindsDenoted w path ↔ ¬ Strays w path)) :
    FindsDenoted (list l) (s :: path) ↔ ¬ Strays (list l) (s :: path) := by
  have hmap : ∀ m, list l ≠ map m := fun m h => by cases h
  cases hs : isIndex s with
  | false =>
    have hnone : subValue (list l) s = none := by simp [subValue, hs]
    rw [FindsDenoted, readValueByPath_name hmap rfl hs, denoted_cons_of_none hnone, eq_self_iff_true, true_iff]
    intro hstrays
    cases hstrays with
    | behind _ hindex => simp [hs] at hindex
    | noInt _ hindex => simp [hs] at hindex
    | scalar h => cases h
    | down hsub _ =>
      rw [hnone] at hsub
      cases hsub
  | true =>
    rcases Nat.lt_or_ge (indexNumber s) (2 ^ 31) with hint | hlarge
    · by_cases hlen : l.length < indexNumber s
      · have hnull : l.getD (indexNumber s) null = null := by
          rw [List.getD_eq_getElem?_getD, List.getElem?_eq_none (by omega)]
          rfl
        have hnone : subValue (list l) s = none := by
          rw [subValue, if_pos hs, hnull]
          rfl
        rw [FindsDenoted, readValueByPath_list hs hint, if_pos hlen, denoted_cons_of_none hnone, eq_self_iff_true,
          true_iff]
        intro hstrays
        cases hstrays with
        | behind _ _ hpasses => omega
        | noInt _ _ hlarge => omega
        | scalar h => cases h
        | down hsub _ =>
          rw [hnone] at hsub
          cases hsub
      · have hread : readValueByPath (list l) (s :: path) = readValueByPath (l.getD (indexNumber s) null) path := by
          rw [readValueByPath_list hs hint, if_neg hlen]
        cases hnull : (l.getD (indexNumber s) null).isNull with
        | true =>
          exact iff_of_false (not_finds_of_null rfl hnull hread) (not_not_intro (.behind path hs (by omega) hnull))
        | false =>
          have hsub : subValue (list l) s = some (l.getD (indexNumber s) null) := by
            rw [subValue, if_pos hs]
            exact existing_eq_some.mpr ⟨hnull, rfl⟩
          refine finds_down hsub hread ?_ (ih _ hnull)
          intro hstrays
          cases hstrays with
          | behind _ _ _ hnothing =>
            rw [hnull] at hnothing
            cases hnothing
          | noInt _ _ hlarge => omega
          | scalar h => cases h
          | down hsub' hstrays =>
            rw [hsub] at hsub'
            cases hsub'
            exact hstrays
    · refine iff_of_false ?_ (not_not_intro (.noInt path hs hlarge))
      rw [FindsDenoted, readValueByPath_list_of_large hs hlarge]
      exact (Option.some_ne_none _).symm

lemma finds_map {m : List (YCPValue × YCPValue)} (s : Text) (path : List Text)
    (ih : ∀ w : YCPValue, w.isNull = false → (FindsDenoted w path ↔ ¬ Strays w path)) :
    FindsDenoted (map m) (s :: path) ↔ ¬ Strays (map m) (s :: path) := by
  cases hnull : (mapValue m (string s)).isNull with
  | false =>
    have hsub : subValue (map m) s = some (mapValue m (string s)) := existing_eq_some.mpr ⟨hnull, rfl⟩
    have hread : readValueByPath (map m) (s :: path) = readValueByPath (mapValue m (string s)) path := by
      cases hs : isIndex s with
      | true =>
        rw [readValueByPath_map_index hs, hnull]
        rfl
      | false => rw [readValueByPath_map_name hs]
    refine finds_down hsub hread ?_ (ih _ hnull)
    intro hstrays
    cases hstrays with
    | missing _ _ hnothing =>
      rw [hnull] at hnothing
      cases hnothing
    | scalar h => cases h
    | down hsub' hstrays =>
      rw [hsub] at hsub'
      cases hsub'
      exact hstrays
  | true =>
    have hnone : subValue (map m) s = none := existing_eq_none.mpr hnull
    cases hs : isIndex s with
    | false =>
      exact iff_of_false (not_finds_of_null rfl hnull (readValueByPath_map_name hs))
        (not_not_intro (.missing path hs hnull))
    | true =>
      rw [FindsDenoted, readValueByPath_map_index hs, hnull, denoted_cons_of_none hnone, if_pos rfl,
        eq_self_iff_true, true_iff]
      intro hstrays
      cases hstrays with
      | missing _ hname => simp [hs] at hname
      | scalar h => cases h
      | down hsub _ =>
        rw [hnone] at hsub
        cases hsub

end

lemma not_strays_nil (v : YCPValue) : ¬ Strays v [] := by
  intro h
  cases h

end YastCore.AnyAgent
