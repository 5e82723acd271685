import YastCore.Interp.Evaluate
import YastCore.Lib.Discipline

/-!
# Constant folding

The parser evaluates lists and maps with the flag `cse` and puts a constant in the place of those for
which it gets a value. The flag is passed down through the expressions, so the argument goes through
all of them: what is computed with the flag is computed without it, in every state, and the state
stays as it is.
-/

namespace YastCore.Interp

/-- Nothing but the observed events may differ. -/
def Quiet (s s' : State) : Prop := { s' with trace := s.trace } = s

lemma Quiet.refl (s : State) : Quiet s s := rfl

lemma Quiet.trans {s s' s'' : State} (h : Quiet s s') (h' : Quiet s' s'') : Quiet s s'' := by
  unfold Quiet at *
  rw [← h, ← h']

/-- The run yields the value and leaves the state. -/
def Yields {α : Type} (x : M α) (s : State) (a : α) : Prop := ∃ s', x s = .ok a s' ∧ Quiet s s'

lemma yields_pure {α : Type} (s : State) (a : α) : Yields (pure a : M α) s a := ⟨s, rfl, Quiet.refl s⟩

lemma yields_bind {α β : Type} {x : M α} {f : α → M β} {s : State} {a : α} {b : β}
    (hx : Yields x s a) (hf : ∀ s', Yields (f a) s' b) : Yields (x >>= f) s b := by
  obtain ⟨s', hs', hquiet⟩ := hx
  obtain ⟨s'', hs'', hquiet'⟩ := hf s'
  exact ⟨s'', by rw [EState.bind_of_ok hs', hs''], hquiet.trans hquiet'⟩

/-- A value that the flag gives is given without it, in every state. -/
def Folds (evaluate : Evaluator) : Prop :=
  ∀ p s₀ v s₀', evaluate true p s₀ = .ok v s₀' → v.isNull = false → ∀ s, Yields (evaluate false p) s v

section Classes

variable {P : Program} {evaluate : Evaluator} (h : Folds evaluate) {s₀ s₀' : State} {v : YCPValue}
include h

lemma yeTermLoop_folds {name : Text} {args : List YCPValue} {ps : List CodePtr}
    (hrun : yeTermLoop evaluate true name args ps s₀ = .ok v s₀') (hv : v.isNull = false) (s : State) :
    Yields (yeTermLoop evaluate false name args ps) s v := by
  induction ps generalizing args s₀ s with
  | nil =>
    cases hrun
    exact yields_pure s _
  | cons p ps ih =>
    obtain ⟨value, s₁, hvalue, hrest⟩ := EState.bind_ok_iff.mp hrun
    cases hnull : value.isNull with
    | true =>
      rw [hnull, if_pos rfl] at hrest
      cases hrest
      cases hv
    | false =>
      rw [hnull, if_neg (by decide)] at hrest
      refine yields_bind (h p _ _ _ hvalue hnull s) fun s' => ?_
      rw [hnull, if_neg (by decide)]
      exact ih hrest s'

lemma yeListLoop_folds {list : List YCPValue} {elements : List CodePtr}
    (hrun : yeListLoop evaluate true list elements s₀ = .ok v s₀') (hv : v.isNull = false) (s : State) :
    Yields (yeListLoop evaluate false list elements) s v := by
  induction elements generalizing list s₀ s with
  | nil =>
    cases hrun
    exact yields_pure s _
  | cons element elements ih =>
    obtain ⟨value, s₁, hvalue, hrest⟩ := EState.bind_ok_iff.mp hrun
    cases hnull : value.isNull with
    | true =>
      rw [hnull, if_pos rfl, if_pos rfl] at hrest
      cases hrest
      rw [hv] at hnull
      cases hnull
    | false =>
      rw [hnull, if_neg (by decide)] at hrest
      refine yields_bind (h element _ _ _ hvalue hnull s) fun s' => ?_
      rw [hnull, if_neg (by decide)]
      exact ih hrest s'

omit h in
lemma addEntry_yields {map map' : List (YCPValue × YCPValue)} {key value : YCPValue}
    (hrun : addEntry map key value s₀ = .ok map' s₀') (s : State) :
    Yields (addEntry map key value) s map' := by
  cases hadd : YCPValue.mapAdd map key value with
  | none =>
    rw [addEntry_of_none hadd] at hrun
    cases hrun
  | some map'' =>
    rw [addEntry_of_some hadd] at hrun
    cases hrun
    exact ⟨_, addEntry_of_some hadd s, rfl⟩

lemma yeMapLoop_folds {map : List (YCPValue × YCPValue)} {elements : List (CodePtr × CodePtr)}
    (hrun : yeMapLoop P evaluate true map elements s₀ = .ok v s₀') (hv : v.isNull = false) (s : State) :
    Yields (yeMapLoop P evaluate false map elements) s v := by
  induction elements generalizing map s₀ s with
  | nil =>
    cases hrun
    exact yields_pure s _
  | cons element elements ih =>
    obtain ⟨k, w⟩ := element
    obtain ⟨key, s₁, hkey, hrest⟩ := EState.bind_ok_iff.mp hrun
    cases hnullKey : key.isNull with
    | true =>
      rw [hnullKey] at hrest
      simp only [Bool.true_and, if_true] at hrest
      split at hrest
      · cases hrest
        cases hv
      · cases hrest
        rw [hv] at hnullKey
        cases hnullKey
    | false =>
      rw [hnullKey] at hrest
      simp only [Bool.false_and, Bool.false_eq_true, if_false] at hrest
      obtain ⟨value, s₂, hvalue, hrest⟩ := EState.bind_ok_iff.mp hrest
      cases hnullValue : value.isNull with
      | true =>
        rw [hnullValue] at hrest
        simp only [Bool.true_and, if_true] at hrest
        cases hrest
        rw [hv] at hnullValue
        cases hnullValue
      | false =>
        rw [hnullValue] at hrest
        simp only [Bool.false_and, Bool.false_eq_true, if_false] at hrest
        obtain ⟨map', s₃, hadd, hrest⟩ := EState.bind_ok_iff.mp hrest
        refine yields_bind (h k _ _ _ hkey hnullKey s) fun s' => ?_
        rw [hnullKey]
        simp only [Bool.false_and, Bool.false_eq_true, if_false]
        refine yields_bind (h w _ _ _ hvalue hnullValue s') fun s'' => ?_
        simp only [hnullValue, Bool.and_false, Bool.false_eq_true, if_false]
        exact yields_bind (addEntry_yields hadd s'') fun s''' => ih hrest s'''

omit h in
lemma isOfType_yields {type : YType} {value : YCPValue} (hrun : isOfType P type value s₀ = .ok v s₀')
    (s : State) : Yields (isOfType P type value) s v := by
  rcases isOfType_eq (P := P) type value with heq | ⟨w, heq⟩
  · rw [heq] at hrun
    cases hrun
  · rw [heq] at hrun ⊢
    cases hrun
    exact yields_pure s _

lemma yeIs_folds {type : TypeId} {expr : CodePtr}
    (hrun : yeIs P evaluate true type expr s₀ = .ok v s₀') (hv : v.isNull = false) (s : State) :
    Yields (yeIs P evaluate false type expr) s v := by
  obtain ⟨value, s₁, hvalue, hrest⟩ := EState.bind_ok_iff.mp hrun
  cases hnull : value.isNull with
  | true =>
    rw [hnull, if_pos rfl] at hrest
    cases hrest
    rw [hv] at hnull
    cases hnull
  | false =>
    rw [hnull, if_neg (by decide)] at hrest
    refine yields_bind (h expr _ _ _ hvalue hnull s) fun s' => ?_
    rw [hnull, if_neg (by decide)]
    exact isOfType_yields hrest s'

lemma yeBracket_folds {var arg default : CodePtr}
    (hrun : yeBracket evaluate true var arg default s₀ = .ok v s₀') (hv : v.isNull = false)
    (s : State) : Yields (yeBracket evaluate false var arg default) s v := by
  obtain ⟨varValue, s₁, hvar, hrest⟩ := EState.bind_ok_iff.mp hrun
  cases hnull : varValue.isNull with
  | true =>
    rw [hnull, Bool.true_and, if_pos rfl] at hrest
    cases hrest
    cases hv
  | false =>
    rw [hnull, Bool.true_and, if_neg (by decide)] at hrest
    refine yields_bind (h var _ _ _ hvar hnull s) fun s' => ?_
    rw [if_neg (by simp)]
    cases hnil : isNil varValue with
    | true =>
      rw [hnil, if_pos rfl] at hrest
      rw [if_pos rfl]
      exact h default _ _ _ hrest hv s'
    | false =>
      rw [hnil, if_neg (by decide)] at hrest
      rw [if_neg (by decide)]
      obtain ⟨argValue, s₂, harg, hrest⟩ := EState.bind_ok_iff.mp hrest
      cases hnullArg : argValue.isNull with
      | true =>
        rw [hnullArg, Bool.true_and, if_pos rfl] at hrest
        cases hrest
        cases hv
      | false =>
        rw [hnullArg, Bool.true_and, if_neg (by decide)] at hrest
        refine yields_bind (h arg _ _ _ harg hnullArg s') fun s'' => ?_
        rw [if_neg (by simp)]
        cases argValue with
        | list indices =>
          dsimp only at hrest ⊢
          cases hresult : (varValue.bracketLoop indices).isNull with
          | true =>
            rw [hresult, if_pos rfl] at hrest
            rw [if_pos rfl]
            exact h default _ _ _ hrest hv s''
          | false =>
            rw [hresult, if_neg (by decide)] at hrest
            cases hrest
            rw [if_neg (by decide)]
            exact yields_pure s'' _
        | _ => exact h default _ _ _ hrest hv s''

lemma evaluateIfAny_folds {code : CodePtr} (hrun : evaluateIfAny P evaluate true code s₀ = .ok v s₀')
    (hv : v.isNull = false) (s : State) : Yields (evaluateIfAny P evaluate false code) s v := by
  unfold evaluateIfAny at hrun ⊢
  cases hcode : P.code code with
  | none =>
    rw [hcode] at hrun
    cases hrun
    cases hv
  | some node =>
    rw [hcode] at hrun
    exact h code _ _ _ hrun hv s

lemma ysIf_folds {condition ifTrue ifFalse : CodePtr}
    (hrun : ysIf P evaluate true condition ifTrue ifFalse s₀ = .ok v s₀') (hv : v.isNull = false)
    (s : State) : Yields (ysIf P evaluate false condition ifTrue ifFalse) s v := by
  obtain ⟨value, s₁, hvalue, hrest⟩ := EState.bind_ok_iff.mp hrun
  cases hnull : value.isNull with
  | true =>
    cases value with
    | null =>
      cases hrest
      cases hv
    | _ => cases hnull
  | false =>
    refine yields_bind (h condition _ _ _ hvalue hnull s) fun s' => ?_
    cases value with
    | null => cases hnull
    | boolean b =>
      cases b with
      | true => exact evaluateIfAny_folds h hrest hv s'
      | false => exact evaluateIfAny_folds h hrest hv s'
    | _ => exact evaluateIfAny_folds h hrest hv s'

/-! ### All classes -/

lemma evaluateNode_folds {fuel : Nat} {ptr : CodePtr} {node : Node CodePtr}
    (hrun : evaluateNode P fuel evaluate true ptr node s₀ = .ok v s₀') (hv : v.isNull = false)
    (s : State) : Yields (evaluateNode P fuel evaluate false ptr node) s v := by
  cases node with
  | yConst kind value =>
    cases hrun
    exact yields_pure s _
  | ycFunction declaration definition =>
    cases hrun
    exact yields_pure s _
  | yeReturn expr =>
    cases hrun
    exact yields_pure s _
  | ysBreak line =>
    cases hrun
    exact yields_pure s _
  | ysContinue line =>
    cases hrun
    exact yields_pure s _
  | yeList elements => exact yeListLoop_folds h hrun hv s
  | yeMap entries => exact yeMapLoop_folds h hrun hv s
  | yeTerm name parameters => exact yeTermLoop_folds h hrun hv s
  | yeIs type expr => exact yeIs_folds h hrun hv s
  | yeBracket var arg default resultType => exact yeBracket_folds h hrun hv s
  | ysIf line condition ifTrue ifFalse => exact ysIf_folds h hrun hv s
  | ysBlock line block => exact h block _ _ _ hrun hv s
  | ysExpression line expr =>
    obtain ⟨value, s₁, -, hrest⟩ := EState.bind_ok_iff.mp hrun
    cases hrest
    cases hv
  | _ =>
    cases hrun
    cases hv

end Classes

lemma evaluate_folds (P : Program) (fuel : Nat) : Folds (evaluate P fuel) := by
  induction fuel with
  | zero =>
    intro p s₀ v s₀' hrun
    cases hrun
  | succ fuel ih =>
    intro p s₀ v s₀' hrun hv s
    unfold evaluate at hrun ⊢
    cases hcode : P.code p with
    | none =>
      rw [hcode] at hrun
      cases hrun
    | some node =>
      rw [hcode] at hrun
      exact evaluateNode_folds ih hrun hv s

/-- Where the constant check gives a value, the interpreter gives that value in every state, from which
nothing is changed; so does, in both modes, a constant with that value in the place of the code. -/
theorem folding_preserves (P : Program) (fuel : Nat) (ptr : CodePtr) (s₀ s₀' : State) (v : YCPValue)
    (hrun : evaluate P fuel true ptr s₀ = .ok v s₀') (hv : v.isNull = false) :
    (∀ s, ∃ s', evaluate P fuel false ptr s = .ok v s' ∧ { s' with trace := s.trace } = s) ∧
      ∀ (P' : Program) (q : CodePtr) (kind : ConstKind) (fuel' : Nat) (cse : Bool) (s : State),
        P'.code q = some (.yConst kind v) → evaluate P' (fuel' + 1) cse q s = .ok v s := by
  refine ⟨evaluate_folds P fuel ptr s₀ v s₀' hrun hv, ?_⟩
  intro P' q kind fuel' cse s hq
  unfold evaluate
  rw [hq]
  rfl

/-- The map `$[1: ["a"][0]:2]`, with a read of the list and a default. -/
def foldable : Program :=
  .ofNodes [.yeMap [(2, 3)], .yConst .ycInteger (.integer 1), .yeBracket 4 5 6 none, .yeList [7],
    .yeList [8], .yConst .ycInteger (.integer 2), .yConst .ycString (.string [97]),
    .yConst .ycInteger (.integer 0)] (fun _ => ⟨.c_variable, .base .anyT unqualified, 0⟩) 100

theorem folding_preserves_closed :
    ∃ s', evaluate foldable 9 false 1 State.start = .ok (.map [(.integer 1, .string [97])]) s' ∧
      { s' with trace := State.start.trace } = State.start :=
  (folding_preserves foldable 9 1 State.start _ (.map [(.integer 1, .string [97])]) rfl rfl).1 State.start

end YastCore.Interp
