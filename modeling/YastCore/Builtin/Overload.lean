import YastCore.Builtin.Declaration
import YastCore.Type.Variadic

/-!
# Overloaded builtins

`findDeclaration` goes through the chain of overloads of a builtin for the first one whose parameters accept
the arguments of a call: all of them, or the ones given so far.
-/

namespace YastCore

open Along YType

namespace StaticDeclaration

/-- A full match: neither refused nor propagated. -/
def fullMatch (actual declared : YType) : Option Bool := (actual.matchType declared).map fun m => m == 0

/-- Every parameter that an argument corresponds to accepts it, and there are as many parameters as
arguments. A trailing wildcard takes any number, and of the arguments given so far there can be fewer. -/
def takes (declared actual : List YType) (full : Bool) : Bool :=
  ((actual.zip declared).all fun p => fullMatch p.1 p.2 == some true) &&
    (actual.length == declared.length || (variadic declared && declared.length ≤ actual.length + 1) ||
      (!full && actual.length ≤ declared.length))

/-- The number of parameters before the first wildcard. -/
def beforeWildcard (declared : List YType) : Nat := (declared.takeWhile fun d => !d.isWildcard).length

/-- The declarations `findDeclaration` is right about: for a call with arguments every comparison up to the
first wildcard is defined, and if the wildcard is not the last parameter it makes no difference that it is
taken for one. A call without arguments is a full one. -/
def WellJudged (declared actual : List YType) (full : Bool) : Prop :=
  if actual = [] then
    if full then beforeWildcard declared = 0 → declared.length ≤ 1 else beforeWildcard declared = 0
  else
    along fullMatch actual (declared.take (beforeWildcard declared + 1)) ≠ none ∧
      (along fullMatch actual (declared.take (beforeWildcard declared + 1)) = some true →
        beforeWildcard declared + 1 < declared.length → beforeWildcard declared ≤ actual.length →
          (full = true → beforeWildcard declared < actual.length) ∧
          (beforeWildcard declared < actual.length → takes declared actual full = true))

/-! ### One declaration -/

lemma beforeWildcard_cons (d : YType) (declared : List YType) :
    beforeWildcard (d :: declared) = if d.isWildcard then 0 else beforeWildcard declared + 1 := by
  rw [beforeWildcard, List.takeWhile_cons]
  cases d.isWildcard <;> rfl

/-- What is made of the state in which the loop over the parameters ends. -/
def finish (declared : List YType) (full : Bool) : Bool × Nat × Option YType → Bool
  | (error, i, dt) =>
    !(error || (full && i != declared.length && !dt.any isWildcard && !(parameterType declared i).isWildcard))

/-- The loop compares up to the first wildcard, and what is made of its end depends on the numbers of
parameters and arguments. -/
lemma parametersLoop_eq (full : Bool) (actual before after : List YType) (dt : Option YType)
    (hdt : dt.any isWildcard = false) :
    (parametersLoop (before ++ after) actual before.length dt).map (finish (before ++ after) full) =
      (along fullMatch actual (after.take (beforeWildcard after + 1))).map fun b =>
        b && (if actual.length < beforeWildcard after then !full
          else actual.length == beforeWildcard after || decide (beforeWildcard after < after.length)) := by
  induction actual generalizing before after dt with
  | nil =>
    rw [parametersLoop, Option.map_some, along_nil_left, Option.map_some, finish, hdt]
    cases after with
    | nil => simp [beforeWildcard]
    | cons d after =>
      have hget : parameterType (before ++ d :: after) before.length = d := by simp [parameterType]
      rw [beforeWildcard_cons, hget]
      cases d.isWildcard <;> cases full <;> simp
  | cons a actual ih =>
    cases after with
    | nil =>
      have hget : (before ++ ([] : List YType))[before.length]? = none := by simp
      rw [parametersLoop, hget]
      simp [finish, beforeWildcard]
    | cons d after =>
      have hget : (before ++ d :: after)[before.length]? = some d := by simp
      have hlength : (before ++ [d]).length = before.length + 1 := List.length_append
      rw [parametersLoop, hget, beforeWildcard_cons, List.take_succ_cons, along_cons, fullMatch]
      dsimp only
      cases a.matchType d with
      | none => rfl
      | some m =>
        rw [Option.bind_eq_bind, Option.bind_some, Option.map_some, Option.bind_some]
        by_cases hm : m = 0
        · cases hwild : d.isWildcard with
          | true => simp [hm, finish, hwild]
          | false =>
            have hrest := ih (before ++ [d]) after (some d) (by simpa using hwild)
            rw [List.append_assoc, List.singleton_append, hlength] at hrest
            rw [if_neg (by simpa using hm), if_neg Bool.false_ne_true, hrest]
            simp [hm]
        · simp [hm, finish]

/-- Whether a declaration is taken for some arguments. -/
lemma accepts_eq {actual : List YType} (h : actual ≠ []) (declared : List YType) (full : Bool) :
    accepts declared actual full =
      (along fullMatch actual (declared.take (beforeWildcard declared + 1))).map fun b =>
        b && (if actual.length < beforeWildcard declared then !full
          else actual.length == beforeWildcard declared || decide (beforeWildcard declared < declared.length)) := by
  have hloop := parametersLoop_eq full actual [] declared none rfl
  rw [List.nil_append, List.length_nil] at hloop
  rw [← hloop, accepts, if_neg (by simpa using h)]
  cases parametersLoop declared actual 0 none with
  | none => rfl
  | some end' => rfl

lemma takes_eq (declared actual : List YType) (full : Bool) :
    takes declared actual full =
      ((along fullMatch actual declared == some true) &&
        (actual.length == declared.length || (variadic declared && decide (declared.length ≤ actual.length + 1)) ||
          (!full && decide (actual.length ≤ declared.length)))) := by
  have hall : ((actual.zip declared).all fun p => fullMatch p.1 p.2 == some true) =
      (along fullMatch actual declared == some true) := by
    rw [Bool.eq_iff_iff, List.all_eq_true, beq_iff_eq, along_eq_true_iff]
    simp only [beq_iff_eq]
  rw [takes, hall]

lemma beforeWildcard_le (declared : List YType) : beforeWildcard declared ≤ declared.length :=
  (List.takeWhile_prefix _).length_le

lemma variadic_cons (d : YType) {declared : List YType} (h : declared ≠ []) :
    variadic (d :: declared) = variadic declared := by
  rw [variadic, variadic, List.getLast?_cons_of_ne_nil h]

/-- The last parameter is the first wildcard. -/
lemma variadic_of_beforeWildcard {declared : List YType} (h : beforeWildcard declared + 1 = declared.length) :
    variadic declared = true := by
  induction declared with
  | nil => cases h
  | cons d declared ih =>
    rw [beforeWildcard_cons, List.length_cons] at h
    cases hwild : d.isWildcard with
    | true =>
      rw [hwild, if_pos rfl] at h
      have hnil : declared = [] := List.length_eq_zero_iff.mp (by omega)
      rw [hnil]
      exact hwild
    | false =>
      rw [hwild, if_neg Bool.false_ne_true] at h
      have hne : declared ≠ [] := by
        rintro rfl
        simp at h
      rw [variadic_cons d hne]
      exact ih (by omega)

lemma beforeWildcard_lt {declared : List YType} (h : variadic declared = true) :
    beforeWildcard declared < declared.length := by
  induction declared with
  | nil => cases h
  | cons d declared ih =>
    rw [beforeWildcard_cons, List.length_cons]
    cases hwild : d.isWildcard with
    | true => simp
    | false =>
      have hne : declared ≠ [] := by
        rintro rfl
        have hlast : d.isWildcard = true := h
        rw [hwild] at hlast
        cases hlast
      rw [variadic_cons d hne] at h
      have hlt := ih h
      rw [if_neg Bool.false_ne_true]
      omega

/-- A call without arguments. -/
lemma accepts_nil_iff (declared : List YType) (full : Bool) :
    accepts declared [] full = some (takes declared [] full) ↔ WellJudged declared [] full := by
  have haccepts : accepts declared [] full =
      some (declared.isEmpty || (parameterType declared 0).isWildcard) := rfl
  rw [haccepts, takes_eq, WellJudged, if_pos rfl, along_nil_left]
  cases declared with
  | nil => cases full <;> simp [beforeWildcard]
  | cons d declared =>
    have hget : parameterType (d :: declared) 0 = d := rfl
    rw [beforeWildcard_cons, hget]
    cases declared with
    | nil =>
      have hvariadic : variadic [d] = d.isWildcard := rfl
      rw [hvariadic]
      cases d.isWildcard <;> cases full <;> simp
    | cons d' declared => cases d.isWildcard <;> cases full <;> simp

lemma accepts_eq_takes_iff (declared actual : List YType) (full : Bool) :
    accepts declared actual full = some (takes declared actual full) ↔ WellJudged declared actual full := by
  by_cases hnil : actual = []
  · rw [hnil]
    exact accepts_nil_iff declared full
  rw [accepts_eq hnil, takes_eq, WellJudged, if_neg hnil]
  have hsplit := @along_append_right _ _ fullMatch actual (declared.take (beforeWildcard declared + 1))
    (declared.drop (beforeWildcard declared + 1))
  rw [List.take_append_drop] at hsplit
  have hle := beforeWildcard_le declared
  have hpos : 0 < actual.length := List.length_pos_iff.mpr hnil
  cases hfirst : along fullMatch actual (declared.take (beforeWildcard declared + 1)) with
  | none => simp
  | some b =>
    cases b with
    | false =>
      rw [hfirst] at hsplit
      have hall : along fullMatch actual declared = some false := hsplit
      simp [hall]
    | true =>
      rw [hfirst, Option.bind_some, if_pos rfl] at hsplit
      by_cases hinner : beforeWildcard declared + 1 < declared.length
      · -- a wildcard that is not the last parameter
        have hlt : beforeWildcard declared < declared.length := by omega
        by_cases hreach : beforeWildcard declared < actual.length
        · have hcode : ¬ actual.length < beforeWildcard declared := by omega
          simp [hinner, hreach, hcode, hlt, hreach.le, takes_eq]
        · have hall : along fullMatch actual declared = some true := by
            rw [hsplit, List.drop_eq_nil_of_le (by rw [List.length_take]; omega), along_nil_left]
          have hne : actual.length ≠ declared.length := by omega
          have hmissing : ¬ declared.length ≤ actual.length + 1 := by omega
          have hfew : actual.length ≤ declared.length := by omega
          rw [hall]
          by_cases hless : actual.length < beforeWildcard declared
          · have hnot : ¬ beforeWildcard declared ≤ actual.length := by omega
            simp [hless, hne, hmissing, hfew, hnot]
          · have heq : actual.length = beforeWildcard declared := by omega
            cases full <;> simp [heq, hinner, hlt, hlt.ne, hlt.le]
      · have hall : along fullMatch actual declared = some true := by
          rw [← hfirst, List.take_of_length_le (by omega)]
        have hequal : (if actual.length < beforeWildcard declared then !full
            else actual.length == beforeWildcard declared ||
              decide (beforeWildcard declared < declared.length)) =
            (actual.length == declared.length ||
              (variadic declared && decide (declared.length ≤ actual.length + 1)) ||
                (!full && decide (actual.length ≤ declared.length))) := by
          cases hvariadic : variadic declared with
          | true =>
            have hlt := beforeWildcard_lt hvariadic
            split
            next hless =>
              have hne : actual.length ≠ declared.length := by omega
              have hmissing : ¬ declared.length ≤ actual.length + 1 := by omega
              have hfew : actual.length ≤ declared.length := by omega
              simp [hne, hmissing, hfew]
            next hless =>
              have henough : declared.length ≤ actual.length + 1 := by omega
              simp [hlt, henough]
          | false =>
            have heq : beforeWildcard declared = declared.length := by
              by_contra hne
              rw [variadic_of_beforeWildcard (by omega)] at hvariadic
              cases hvariadic
            rw [heq]
            split
            next hless => simp [hless.ne, hless.le]
            next hless =>
              have hle' : (actual.length ≤ declared.length) ↔ actual.length = declared.length := by omega
              cases full <;> simp [hle']
        rw [hall, hequal]
        simp [hinner]

/-! ### The chain -/

lemma accepts_of_findDeclaration {returntype : YType} {actual : List YType} {q : Qualifiers} {full : Bool}
    {chain : List Declaration} {d : Declaration}
    (h : findDeclaration (functionT returntype actual q) full chain = some (some d)) :
    accepts d.parameters actual full = some true := by
  induction chain with
  | nil => cases h
  | cons e chain ih =>
    rw [findDeclaration] at h
    cases haccepts : accepts e.parameters actual full with
    | none =>
      rw [haccepts] at h
      cases h
    | some b =>
      rw [haccepts] at h
      cases b with
      | true =>
        cases h
        exact haccepts
      | false => exact ih h

/-- The search finds the first declaration that takes the arguments exactly when it is right about each
declaration of the chain up to that one. -/
theorem findDeclaration_first_iff (chain : List Declaration) (returntype : YType) (actual : List YType)
    (q : Qualifiers) (full : Bool) :
    findDeclaration (functionT returntype actual q) full chain =
        some (chain.find? fun d => takes d.parameters actual full) ↔
      ∀ before d after, chain = before ++ d :: after →
        (∀ e ∈ before, takes e.parameters actual full = false) →
          WellJudged d.parameters actual full := by
  induction chain with
  | nil => simp [findDeclaration]
  | cons d chain ih =>
    have hjudged := accepts_eq_takes_iff d.parameters actual full
    have hfirst : (∀ before e after, d :: chain = before ++ e :: after →
        (∀ e' ∈ before, takes e'.parameters actual full = false) → WellJudged e.parameters actual full) ↔
        WellJudged d.parameters actual full ∧ (takes d.parameters actual full = false →
          ∀ before e after, chain = before ++ e :: after →
            (∀ e' ∈ before, takes e'.parameters actual full = false) →
              WellJudged e.parameters actual full) := by
      constructor
      · intro h
        refine ⟨h [] d chain rfl (by simp), ?_⟩
        intro htakes before e after hchain hbefore
        refine h (d :: before) e after (by rw [hchain, List.cons_append]) ?_
        exact List.forall_mem_cons.mpr ⟨htakes, hbefore⟩
      · rintro ⟨hd, hrest⟩ before e after hchain hbefore
        cases before with
        | nil =>
          cases hchain
          exact hd
        | cons d' before =>
          cases hchain
          obtain ⟨htakes, hbefore⟩ := List.forall_mem_cons.mp hbefore
          exact hrest htakes before e after rfl hbefore
    rw [hfirst, ← ih, ← hjudged, findDeclaration, List.find?_cons]
    cases haccepts : accepts d.parameters actual full with
    | none => simp
    | some b =>
      rw [Option.bind_eq_bind, Option.bind_some]
      cases htakes : takes d.parameters actual full with
      | true =>
        cases b with
        | true => simp
        | false =>
          -- what the rest of the chain yields is not this declaration
          have hnot : findDeclaration (functionT returntype actual q) full chain ≠ some (some d) := by
            intro hfound
            rw [accepts_of_findDeclaration hfound] at haccepts
            cases haccepts
          simp [hnot]
      | false =>
        cases b with
        | true =>
          have hnot : chain.find? (fun d => takes d.parameters actual full) ≠ some d := by
            intro hfound
            rw [List.find?_some hfound] at htakes
            cases htakes
          simp [hnot.symm]
        | false => simp

/-- `string (...)`. -/
def anyArguments : Declaration :=
  plus (base .stringT unqualified) [base .wildcardT unqualified] rfl rfl

/-- `string (integer)`. -/
def oneArgument : Declaration :=
  plus (base .stringT unqualified) [base .integerT unqualified] rfl rfl

/-- With no arguments so far, a declaration with a parameter is passed over. -/
theorem findDeclaration_not_first :
    findDeclaration (functionT (base .stringT unqualified) [] unqualified) false [oneArgument, anyArguments] =
        some (some anyArguments) ∧
      [oneArgument, anyArguments].find? (fun d => takes d.parameters [] false) = some oneArgument ∧
      some anyArguments ≠ some oneArgument := by
  refine ⟨rfl, rfl, ?_⟩
  intro h
  have hparameters := congrArg (fun d => d.map Declaration.parameters) h
  cases hparameters

end StaticDeclaration

end YastCore
