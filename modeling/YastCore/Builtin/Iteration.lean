import YastCore.Value.Container

/-!
# Iteration builtins

`filter`, `maplist`, `listmap`, `mapmap` and `foreach` over lists and maps. Each has its own copy of the
loop that sets the loop variables and evaluates the block; the copies differ in how they take its result.
-/

namespace YastCore

open YCPValue

/-- The code of a loop. It yields null, Break, nil or a value of its declared kind. -/
structure LoopBlock (σ : Type) (declared : YCPValue → Bool) where
  evaluate : σ → YCPValue × σ
  typed : ∀ s, (evaluate s).1.isNull = true ∨ (evaluate s).1.isBreak = true ∨ (evaluate s).1.isVoid = true ∨
    declared (evaluate s).1 = true

/-- What a turn of a loop does with the result of the block: it goes on, leaves the loop, returns the null
handle, or stops the program. -/
inductive Turn (ρ : Type) where
  | next (acc : ρ)
  | breaks (acc : ρ)
  | fails
  | aborts

/-- The result of a loop, `none` if the program is stopped; the elements that the block was evaluated for;
and the state. -/
structure Course (α σ : Type) where
  result : Option YCPValue
  evaluated : List α
  state : σ

def isMapValue : YCPValue → Bool
  | map _ => true
  | _ => false

def anyValue (_ : YCPValue) : Bool := true

section

variable {α ρ σ : Type} {declared : YCPValue → Bool}

def iterate (assign : α → σ → σ) (expr : LoopBlock σ declared) (value : ρ → YCPValue)
    (turn : α → YCPValue → ρ → Turn ρ) (acc : ρ) (evaluated : List α) : List α → σ → Course α σ
  | [], s => ⟨some (value acc), evaluated, s⟩
  | x :: elements, s =>
    let v := expr.evaluate (assign x s)
    match turn x v.1 acc with
    | .next acc => iterate assign expr value turn acc (evaluated ++ [x]) elements v.2
    | .breaks acc => ⟨some (value acc), evaluated ++ [x], v.2⟩
    | .fails => ⟨some null, evaluated ++ [x], v.2⟩
    | .aborts => ⟨none, evaluated ++ [x], v.2⟩

/-- The null handle for a container gives the null handle. -/
def iterateOver (assign : α → σ → σ) (expr : LoopBlock σ declared) (value : ρ → YCPValue)
    (turn : α → YCPValue → ρ → Turn ρ) (acc : ρ) (container : Option (List α)) (s : σ) : Course α σ :=
  match container with
  | none => ⟨some null, [], s⟩
  | some elements => iterate assign expr value turn acc [] elements s

/-! ### The turns -/

/-- nil counts as false. -/
def filterTurn (add : α → ρ → ρ) (x : α) (v : YCPValue) (acc : ρ) : Turn ρ :=
  if v.isNull then .fails
  else if v.isVoid then .next acc
  else if v.isBreak then .breaks acc
  else
    match v with
    | boolean b => .next (if b then add x acc else acc)
    | _ => .aborts

def maplistTurn (_ : α) (v : YCPValue) (acc : List YCPValue) : Turn (List YCPValue) :=
  if v.isNull then .fails
  else if v.isBreak then .breaks acc
  else .next (acc ++ [v])

def listmapTurn (_ : α) (v : YCPValue) (acc : List (YCPValue × YCPValue)) :
    Turn (List (YCPValue × YCPValue)) :=
  if v.isNull then .fails
  else if v.isBreak then .breaks acc
  else
    match v with
    | map [e] => .next (mapInsert e.1 e.2 acc)
    | _ => .fails

/-- Without a check, `asMap` stops the program for what is no map, and an empty map has no first entry. -/
def mapmapTurn (_ : α) (v : YCPValue) (acc : List (YCPValue × YCPValue)) :
    Turn (List (YCPValue × YCPValue)) :=
  if v.isNull then .fails
  else if v.isBreak then .breaks acc
  else
    match v with
    | map (e :: _) => .next (mapInsert e.1 e.2 acc)
    | _ => .aborts

/-- `foreach` over a map. -/
def foreachTurn (_ : α) (v _acc : YCPValue) : Turn YCPValue :=
  if v.isNull then .fails
  else if v.isBreak then .breaks void
  else .next v

/-- `foreach` over a list goes on behind a null. -/
def foreachListTurn (_ : α) (v _acc : YCPValue) : Turn YCPValue :=
  if v.isNull then .next v
  else if v.isBreak then .breaks void
  else .next v

/-- The loop variables of a map. -/
def assignEntry (k v : YCPValue → σ → σ) (e : YCPValue × YCPValue) (s : σ) : σ := v e.2 (k e.1 s)

end

/-! ### The builtins -/

section

variable {σ : Type} (symbol : YCPValue → σ → σ) (list : Option (List YCPValue))

def lFilter (expr : LoopBlock σ isBoolean) : σ → Course YCPValue σ :=
  iterateOver symbol expr .list (filterTurn fun x acc => acc ++ [x]) [] list

def lMaplist (expr : LoopBlock σ anyValue) : σ → Course YCPValue σ :=
  iterateOver symbol expr .list maplistTurn [] list

def lListmap (expr : LoopBlock σ isMapValue) : σ → Course YCPValue σ :=
  iterateOver symbol expr .map listmapTurn [] list

def lForeach (expr : LoopBlock σ anyValue) : σ → Course YCPValue σ :=
  iterateOver symbol expr id foreachListTurn void list

end

section

variable {σ : Type} (key value : YCPValue → σ → σ) (map : Option (List (YCPValue × YCPValue)))

def mFilter (expr : LoopBlock σ isBoolean) : σ → Course (YCPValue × YCPValue) σ :=
  iterateOver (assignEntry key value) expr .map (filterTurn fun e acc => mapInsert e.1 e.2 acc) [] map

def mMaplist (expr : LoopBlock σ anyValue) : σ → Course (YCPValue × YCPValue) σ :=
  iterateOver (assignEntry key value) expr .list maplistTurn [] map

def mMapmap (expr : LoopBlock σ isMapValue) : σ → Course (YCPValue × YCPValue) σ :=
  iterateOver (assignEntry key value) expr .map mapmapTurn [] map

def mForeach (expr : LoopBlock σ anyValue) : σ → Course (YCPValue × YCPValue) σ :=
  iterateOver (assignEntry key value) expr id foreachTurn void map

end

/-! ### The shared protocol -/

section

variable {α ρ σ : Type} {declared : YCPValue → Bool}

/-- The block is evaluated for one element after the other, until null, which is the result then, until
Break, which leaves the result so far, or until a result that is not accepted. -/
def protocol (assign : α → σ → σ) (expr : LoopBlock σ declared) (value : ρ → YCPValue)
    (accept : α → YCPValue → ρ → Option ρ) (acc : ρ) (evaluated : List α) : List α → σ → Course α σ
  | [], s => ⟨some (value acc), evaluated, s⟩
  | x :: elements, s =>
    let v := expr.evaluate (assign x s)
    if v.1.isNull then ⟨some null, evaluated ++ [x], v.2⟩
    else if v.1.isBreak then ⟨some (value acc), evaluated ++ [x], v.2⟩
    else
      match accept x v.1 acc with
      | none => ⟨some null, evaluated ++ [x], v.2⟩
      | some acc => protocol assign expr value accept acc (evaluated ++ [x]) elements v.2

def filterAccept (add : α → ρ → ρ) (x : α) (v : YCPValue) (acc : ρ) : Option ρ :=
  match v with
  | boolean b => some (if b then add x acc else acc)
  | _ => if v.isVoid then some acc else none

def listAccept (_ : α) (v : YCPValue) (acc : List YCPValue) : Option (List YCPValue) := some (acc ++ [v])

/-- A map with one entry. -/
def entryAccept (_ : α) (v : YCPValue) (acc : List (YCPValue × YCPValue)) :
    Option (List (YCPValue × YCPValue)) :=
  match v with
  | map [e] => some (mapInsert e.1 e.2 acc)
  | _ => none

/-- The value of `foreach` is that of the last evaluation. -/
def lastAccept (_ : α) (v _acc : YCPValue) : Option YCPValue := some v

/-- What the block yields for the elements in order, up to the first null or Break, and that one. -/
def answers (assign : α → σ → σ) (expr : LoopBlock σ declared) :
    List α → σ → List YCPValue × Option YCPValue
  | [], _ => ([], none)
  | x :: elements, s =>
    let v := expr.evaluate (assign x s)
    if v.1.isNull || v.1.isBreak then ([], some v.1)
    else (v.1 :: (answers assign expr elements v.2).1, (answers assign expr elements v.2).2)

def IsSingleEntry (v : YCPValue) : Prop := ∃ e, v = map [e]

/-- Break comes while the value so far is nil. -/
def BreaksAtNil (course : List YCPValue × Option YCPValue) (acc : YCPValue) : Prop :=
  course.2 = some brk → course.1.getLastD acc = void

/-- Null comes for the last element only. -/
def NullAtLast (course : List YCPValue × Option YCPValue) (elements : List α) : Prop :=
  course.2 = some null → course.1.length + 1 = elements.length

variable {assign : α → σ → σ} {expr : LoopBlock σ declared} {value : ρ → YCPValue}
  {turn : α → YCPValue → ρ → Turn ρ} {accept : α → YCPValue → ρ → Option ρ}

/-- The turn that the protocol asks for. -/
def protocolTurn (accept : α → YCPValue → ρ → Option ρ) (x : α) (v : YCPValue) (acc : ρ) : Turn ρ :=
  if v.isNull then .fails
  else if v.isBreak then .breaks acc
  else
    match accept x v acc with
    | none => .fails
    | some acc => .next acc

theorem iterate_eq_protocol
    (h : ∀ x s acc, turn x (expr.evaluate s).1 acc = protocolTurn accept x (expr.evaluate s).1 acc)
    (acc : ρ) (evaluated elements : List α) (s : σ) :
    iterate assign expr value turn acc evaluated elements s =
      protocol assign expr value accept acc evaluated elements s := by
  induction elements generalizing acc evaluated s with
  | nil => rfl
  | cons x elements ih =>
    simp only [iterate, protocol, h, protocolTurn]
    by_cases hnull : (expr.evaluate (assign x s)).1.isNull = true
    · simp [hnull]
    · by_cases hbreak : (expr.evaluate (assign x s)).1.isBreak = true
      · simp [hnull, hbreak]
      · cases haccept : accept x (expr.evaluate (assign x s)).1 acc with
        | none => simp [hnull, hbreak]
        | some acc => simp [hnull, hbreak, ih]

lemma filterTurn_eq {expr : LoopBlock σ isBoolean} (add : α → ρ → ρ) (x : α) (s : σ) (acc : ρ) :
    filterTurn add x (expr.evaluate s).1 acc =
      protocolTurn (filterAccept add) x (expr.evaluate s).1 acc := by
  have htyped := expr.typed s
  generalize (expr.evaluate s).1 = v at htyped
  cases v with
  | null => rfl
  | void => rfl
  | boolean b => rfl
  | ret => rfl
  | brk => rfl
  | _ => simp [isNull, isBreak, isVoid, isBoolean] at htyped

lemma maplistTurn_eq (x : α) (v : YCPValue) (acc : List YCPValue) :
    maplistTurn x v acc = protocolTurn listAccept x v acc := rfl

lemma listmapTurn_eq (x : α) (v : YCPValue) (acc : List (YCPValue × YCPValue)) :
    listmapTurn x v acc = protocolTurn entryAccept x v acc := by
  cases v with
  | map m =>
    match m with
    | [] => rfl
    | [e] => rfl
    | _ :: _ :: _ => rfl
  | _ => rfl

/-! ### The loops that differ -/

/-- A loop evaluates the block once for each element that it gets to, in order, and gets to the first one. -/
lemma iterate_evaluated (acc : ρ) (evaluated elements : List α) (s : σ) :
    ∃ more, (iterate assign expr value turn acc evaluated elements s).evaluated = evaluated ++ more ∧
      (more = [] → elements = []) := by
  induction elements generalizing acc evaluated s with
  | nil => exact ⟨[], (List.append_nil _).symm, fun _ => rfl⟩
  | cons x elements ih =>
    rw [iterate]
    cases turn x (expr.evaluate (assign x s)).1 acc with
    | next acc =>
      obtain ⟨more, hmore, -⟩ := ih acc (evaluated ++ [x]) (expr.evaluate (assign x s)).2
      refine ⟨x :: more, hmore.trans ?_, fun h => absurd h (List.cons_ne_nil _ _)⟩
      rw [List.append_assoc, List.singleton_append]
    | breaks acc => exact ⟨[x], rfl, fun h => absurd h (List.cons_ne_nil _ _)⟩
    | fails => exact ⟨[x], rfl, fun h => absurd h (List.cons_ne_nil _ _)⟩
    | aborts => exact ⟨[x], rfl, fun h => absurd h (List.cons_ne_nil _ _)⟩

/-- A loop that has not gone on has had no element. -/
lemma elements_of_evaluated {acc : ρ} {evaluated elements : List α} {s : σ} {result : Option YCPValue} {s' : σ}
    (h : iterate assign expr value turn acc evaluated elements s = ⟨result, evaluated, s'⟩) : elements = [] := by
  have hcourse : ∃ more, (iterate assign expr value turn acc evaluated elements s).evaluated = evaluated ++ more ∧
      (more = [] → elements = []) := iterate_evaluated acc evaluated elements s
  obtain ⟨more, hmore, hnil⟩ := hcourse
  rw [h] at hmore
  exact hnil (List.self_eq_append_right.mp hmore)

lemma isBreak_iff {v : YCPValue} : v.isBreak = true ↔ v = brk := by
  cases v <;> simp [isBreak]

lemma isNull_iff {v : YCPValue} : v.isNull = true ↔ v = null := by
  cases v <;> simp [isNull]

lemma answers_cons_ending {x : α} {elements : List α} {s : σ}
    (h : ((expr.evaluate (assign x s)).1.isNull || (expr.evaluate (assign x s)).1.isBreak) = true) :
    answers assign expr (x :: elements) s = ([], some (expr.evaluate (assign x s)).1) := by
  rw [answers, if_pos h]

lemma answers_cons {x : α} {elements : List α} {s : σ} (hnull : (expr.evaluate (assign x s)).1.isNull = false)
    (hbreak : (expr.evaluate (assign x s)).1.isBreak = false) :
    answers assign expr (x :: elements) s =
      ((expr.evaluate (assign x s)).1 :: (answers assign expr elements (expr.evaluate (assign x s)).2).1,
        (answers assign expr elements (expr.evaluate (assign x s)).2).2) := by
  rw [answers, hnull, hbreak]
  rfl

lemma mapmapTurn_of_not_single {v : YCPValue} (hnull : v.isNull = false) (hbreak : v.isBreak = false)
    (h : ¬ IsSingleEntry v) (x : α) (acc : List (YCPValue × YCPValue)) :
    entryAccept x v acc = none ∧ ((∃ acc', mapmapTurn x v acc = .next acc') ∨ mapmapTurn x v acc = .aborts) := by
  cases v with
  | null => cases hnull
  | brk => cases hbreak
  | map m =>
    match m with
    | [] => exact ⟨rfl, Or.inr rfl⟩
    | [e] => exact absurd ⟨e, rfl⟩ h
    | _ :: _ :: _ => exact ⟨rfl, Or.inl ⟨_, rfl⟩⟩
  | _ => exact ⟨rfl, Or.inr rfl⟩

/-- A loop that goes on does not leave null behind at once. -/
lemma iterate_ne_null {turn : α → YCPValue → List (YCPValue × YCPValue) → Turn (List (YCPValue × YCPValue))}
    (acc : List (YCPValue × YCPValue)) (evaluated elements : List α) (s s' : σ) :
    iterate assign expr .map turn acc evaluated elements s ≠ ⟨some null, evaluated, s'⟩ := by
  intro h
  have hnil := elements_of_evaluated h
  subst hnil
  cases h

/-- The first result that is no single entry stops the program or is let pass. -/
theorem mapmap_iff (acc : List (YCPValue × YCPValue)) (evaluated elements : List α) (s : σ) :
    iterate assign expr .map mapmapTurn acc evaluated elements s =
        protocol assign expr .map entryAccept acc evaluated elements s ↔
      ∀ v ∈ (answers assign expr elements s).1, IsSingleEntry v := by
  induction elements generalizing acc evaluated s with
  | nil => simp [iterate, protocol, answers]
  | cons x elements ih =>
    cases hnull : (expr.evaluate (assign x s)).1.isNull with
    | true =>
      rw [answers_cons_ending (Bool.or_eq_true_iff.mpr (Or.inl hnull))]
      simp [iterate, protocol, mapmapTurn, hnull]
    | false =>
      cases hbreak : (expr.evaluate (assign x s)).1.isBreak with
      | true =>
        rw [answers_cons_ending (Bool.or_eq_true_iff.mpr (Or.inr hbreak))]
        simp [iterate, protocol, mapmapTurn, hnull, hbreak]
      | false =>
        rw [answers_cons hnull hbreak, List.forall_mem_cons, iterate, protocol, hnull, hbreak]
        by_cases hsingle : IsSingleEntry (expr.evaluate (assign x s)).1
        · rw [and_iff_right hsingle]
          obtain ⟨e, he⟩ := hsingle
          rw [he]
          exact ih _ _ _
        · refine iff_of_false ?_ fun h => hsingle h.1
          obtain ⟨hreject, hnext | habort⟩ := mapmapTurn_of_not_single hnull hbreak hsingle x acc
          · obtain ⟨acc', hnext⟩ := hnext
            simp only [hreject, hnext]
            exact iterate_ne_null _ _ _ _ _
          · simp [hreject, habort]

/-- At a Break nil is left behind, whatever the value so far. -/
lemma course_void_iff {acc : YCPValue} {evaluated : List α} {s : σ} :
    (⟨some void, evaluated, s⟩ : Course α σ) = ⟨some acc, evaluated, s⟩ ↔ BreaksAtNil ([], some brk) acc := by
  constructor
  · intro h _
    injection h with hresult
    exact (Option.some.inj hresult).symm
  · intro h
    have hacc : acc = void := h rfl
    rw [hacc]

theorem foreach_iff {declared : YCPValue → Bool} {expr : LoopBlock σ declared} (acc : YCPValue)
    (evaluated elements : List α) (s : σ) :
    iterate assign expr id foreachTurn acc evaluated elements s =
        protocol assign expr id lastAccept acc evaluated elements s ↔
      BreaksAtNil (answers assign expr elements s) acc := by
  induction elements generalizing acc evaluated s with
  | nil => simp [iterate, protocol, answers, BreaksAtNil]
  | cons x elements ih =>
    cases hnull : (expr.evaluate (assign x s)).1.isNull with
    | true =>
      rw [answers_cons_ending (Bool.or_eq_true_iff.mpr (Or.inl hnull))]
      rw [iterate, protocol, isNull_iff.mp hnull]
      exact iff_of_true rfl fun h => by cases h
    | false =>
      cases hbreak : (expr.evaluate (assign x s)).1.isBreak with
      | true =>
        rw [answers_cons_ending (Bool.or_eq_true_iff.mpr (Or.inr hbreak))]
        rw [iterate, protocol, isBreak_iff.mp hbreak]
        exact course_void_iff
      | false =>
        rw [answers_cons hnull hbreak, iterate, protocol, hnull, hbreak]
        simp only [foreachTurn, lastAccept, hnull, hbreak, Bool.false_eq_true, if_false, ih, BreaksAtNil,
          List.getLastD_cons]

/-- `foreach` over a list goes on behind a null, and yields null only if that was the last element. -/
theorem foreachList_iff (acc : YCPValue) (evaluated elements : List α) (s : σ) :
    iterate assign expr id foreachListTurn acc evaluated elements s =
        protocol assign expr id lastAccept acc evaluated elements s ↔
      BreaksAtNil (answers assign expr elements s) acc ∧ NullAtLast (answers assign expr elements s) elements := by
  induction elements generalizing acc evaluated s with
  | nil => simp [iterate, protocol, answers, BreaksAtNil, NullAtLast]
  | cons x elements ih =>
    cases hnull : (expr.evaluate (assign x s)).1.isNull with
    | true =>
      rw [answers_cons_ending (Bool.or_eq_true_iff.mpr (Or.inl hnull)), iterate, protocol, hnull]
      simp only [foreachListTurn, if_true, BreaksAtNil, NullAtLast, isNull_iff.mp hnull, List.length_nil,
        List.length_cons]
      constructor
      · intro h
        have hnil := elements_of_evaluated h
        subst hnil
        simp
      · rintro ⟨-, hlast⟩
        have hnil : elements = [] := List.eq_nil_of_length_eq_zero (by have := hlast trivial; omega)
        subst hnil
        rfl
    | false =>
      cases hbreak : (expr.evaluate (assign x s)).1.isBreak with
      | true =>
        rw [answers_cons_ending (Bool.or_eq_true_iff.mpr (Or.inr hbreak))]
        have hlast : NullAtLast (([], some brk) : List YCPValue × Option YCPValue) (x :: elements) := by
          intro h
          cases h
        rw [iterate, protocol, isBreak_iff.mp hbreak, and_iff_left hlast]
        exact course_void_iff
      | false =>
        rw [answers_cons hnull hbreak, iterate, protocol, hnull, hbreak]
        simp only [foreachListTurn, lastAccept, hnull, hbreak, Bool.false_eq_true, if_false, ih, BreaksAtNil,
          NullAtLast, List.getLastD_cons, List.length_cons, Nat.add_right_cancel_iff]

end

/-! ### Each builtin against the protocol -/

section

variable {σ : Type} (assign key value : YCPValue → σ → σ)

/-- The answers of a block to the entries of a map. -/
def mapAnswers {declared : YCPValue → Bool} (expr : LoopBlock σ declared) (m : List (YCPValue × YCPValue))
    (s : σ) : List YCPValue × Option YCPValue := answers (assignEntry key value) expr m s

/-- `filter`, `maplist` and `listmap` follow the protocol. `mapmap` does where every result is a map with one
entry; `foreach` does where Break finds nil, over a list only if null comes last. -/
theorem iteration_protocol_iff (l : List YCPValue) (m : List (YCPValue × YCPValue)) (s : σ) :
    (∀ expr, lFilter assign (some l) expr s =
      protocol assign expr .list (filterAccept fun x acc => acc ++ [x]) [] [] l s) ∧
    (∀ expr, mFilter key value (some m) expr s =
      protocol (assignEntry key value) expr .map (filterAccept fun e acc => mapInsert e.1 e.2 acc) [] [] m s) ∧
    (∀ expr, lMaplist assign (some l) expr s = protocol assign expr .list listAccept [] [] l s) ∧
    (∀ expr, mMaplist key value (some m) expr s =
      protocol (assignEntry key value) expr .list listAccept [] [] m s) ∧
    (∀ expr, lListmap assign (some l) expr s = protocol assign expr .map entryAccept [] [] l s) ∧
    (∀ expr, mMapmap key value (some m) expr s =
        protocol (assignEntry key value) expr .map entryAccept [] [] m s ↔
      ∀ v ∈ (mapAnswers key value expr m s).1, IsSingleEntry v) ∧
    (∀ expr, mForeach key value (some m) expr s =
        protocol (assignEntry key value) expr id lastAccept void [] m s ↔
      BreaksAtNil (mapAnswers key value expr m s) void) ∧
    (∀ expr, lForeach assign (some l) expr s = protocol assign expr id lastAccept void [] l s ↔
      BreaksAtNil (answers assign expr l s) void ∧ NullAtLast (answers assign expr l s) l) := by
  refine ⟨?_, ?_, ?_, ?_, ?_, ?_, ?_, ?_⟩
  · intro expr
    exact iterate_eq_protocol (filterTurn_eq _) _ _ _ _
  · intro expr
    exact iterate_eq_protocol (filterTurn_eq _) _ _ _ _
  · intro expr
    exact iterate_eq_protocol (fun x _ acc => maplistTurn_eq x _ acc) _ _ _ _
  · intro expr
    exact iterate_eq_protocol (fun x _ acc => maplistTurn_eq x _ acc) _ _ _ _
  · intro expr
    exact iterate_eq_protocol (fun x _ acc => listmapTurn_eq x _ acc) _ _ _ _
  · intro expr
    exact mapmap_iff _ _ _ _
  · intro expr
    exact foreach_iff _ _ _ _
  · intro expr
    exact foreachList_iff _ _ _ _

end

/-- The code `{ return nil; }` of a loop that has to yield maps. -/
def nilBlock : LoopBlock Unit isMapValue where
  evaluate s := (void, s)
  typed _ := Or.inr (Or.inr (Or.inl rfl))

/-- `mapmap` stops the program for nil. -/
theorem mMapmap_nil :
    ¬ mMapmap (fun _ s => s) (fun _ s => s) (some [(integer 1, integer 1)]) nilBlock () =
        protocol (assignEntry (fun _ s => s) fun _ s => s) nilBlock .map entryAccept [] []
          [(integer 1, integer 1)] () := by
  intro h
  cases h

end YastCore
