import YastCore.Interp.Evaluate
import YastCore.Lib.Arguments

/-!
# The nil protocol of operators and builtins

A declaration without `DECL_NIL` promises its implementation that no argument is null or nil. `YEUnary`,
`YEBinary` and `YEBuiltin` each keep that promise, or fail to, on their own.
-/

namespace YastCore.Interp

open Arguments

/-! ### The protocol -/

/-- What the evaluation of a node makes of its arguments: with `DECL_NOEVAL` the implementation gets them
unevaluated; otherwise it gets their values, unless one of them is null or nil or faults. -/
structure Protocol (noeval : Bool) (outcome : CodePtr → M YCPValue) (codes : List CodePtr)
    (implementation : List YCPValue → M YCPValue) (evaluation : M YCPValue) (s : State) : Prop where
  unevaluated : noeval = true → evaluation s = implementation (codes.map .code) s
  calls : noeval = false → ∀ values s', Through outcome isNil s codes values s' →
    evaluation s = implementation values s'
  stops : noeval = false → ∀ s', Stops outcome isNil s codes s' → evaluation s = .ok .null s'
  faults : noeval = false → ∀ e s', Faults outcome isNil s codes e s' → evaluation s = .error e s'

/-- The implementation is never called with a null or a nil: what it would do with them makes no difference. -/
theorem Protocol.nil_free {outcome : CodePtr → M YCPValue} {codes : List CodePtr}
    {implementation implementation' : List YCPValue → M YCPValue} {evaluation evaluation' : M YCPValue} {s : State}
    (h : Protocol false outcome codes implementation evaluation s)
    (h' : Protocol false outcome codes implementation' evaluation' s)
    (hsame : ∀ values, (∀ v ∈ values, isNil v = false) → implementation values = implementation' values) :
    evaluation s = evaluation' s := by
  rcases through_or_stops_or_faults outcome isNil s codes with ⟨values, s', hrun⟩ | ⟨s', hrun⟩ | ⟨e, s', hrun⟩
  · rw [h.calls rfl values s' hrun, h'.calls rfl values s' hrun, hsame values hrun.goes_on]
  · rw [h.stops rfl s' hrun, h'.stops rfl s' hrun]
  · rw [h.faults rfl e s' hrun, h'.faults rfl e s' hrun]

/-! ### The three evaluators -/

section Evaluators

variable (evaluate : Evaluator)

/-- An argument of `YEBuiltin`: a block is passed as it is, and the constant of an entry is its value. -/
def argumentOutcome (P : Program) (code : CodePtr) : M YCPValue :=
  if P.isBlock code then return .code code
  else
    match P.code code with
    | some (.yConst .ycEntry value) => return value
    | _ => evaluate false code

/-- The implementation of a builtin behind `YEBuiltin`, which gets no more than ten arguments. -/
def builtinImplementation (P : Program) (fuel : Nat) (d : DeclId) (b : Builtin) (block : CodePtr)
    (parameters : List CodePtr) (values : List YCPValue) : M YCPValue :=
  if maxargs < parameters.length then return .null else applyBuiltin P fuel evaluate d b block values

/-- For every declaration without `DECL_NIL`, with this flag `DECL_NOEVAL`. -/
def UnaryProtocol (noeval : Bool) (arg : CodePtr) (s : State) : Prop :=
  ∀ (P : Program) (fuel : Nat) (d : DeclId) (b : Builtin), P.builtin d = some b → b.nil = false →
    b.noeval = noeval →
    Protocol noeval (evaluate false) [arg] (callBuiltin P fuel evaluate d b.ptr)
      (yeUnary P fuel evaluate false (some d) arg) s

def BinaryProtocol (noeval : Bool) (arg1 arg2 : CodePtr) (s : State) : Prop :=
  ∀ (P : Program) (fuel : Nat) (d : DeclId) (b : Builtin), P.builtin d = some b → b.nil = false →
    b.noeval = noeval →
    Protocol noeval (evaluate false) [arg1, arg2] (callBuiltin P fuel evaluate d b.ptr)
      (yeBinary P fuel evaluate false (some d) arg1 arg2) s

def BuiltinProtocol (noeval : Bool) (block : CodePtr) (parameters : List CodePtr) (s : State) : Prop :=
  ∀ (P : Program) (fuel : Nat) (d : DeclId) (b : Builtin), P.builtin d = some b → b.nil = false →
    b.noeval = noeval →
    Protocol noeval (argumentOutcome evaluate P) (parameters.take maxargs)
      (builtinImplementation evaluate P fuel d b block parameters)
      (yeBuiltin P fuel evaluate false (some d) block parameters) s

/-- The argument of a unary operator is not nil; with `DECL_NOEVAL` it evaluates to its own code. -/
def UnaryKeeps (noeval : Bool) (arg : CodePtr) (s : State) : Prop :=
  if noeval then evaluate false arg s = .ok (.code arg) s
  else ∀ value s', evaluate false arg s = .ok value s' → value.isVoid = false

end Evaluators

section Keeps

variable {evaluate : Evaluator} {P : Program} {fuel : Nat} {d : DeclId} {b : Builtin} {s : State}

/-! ### Binary operators -/

lemma isNil_code (c : CodePtr) : isNil (.code c) = false := rfl

lemma yeBinary_protocol (hb : P.builtin d = some b) (hnil : b.nil = false) (arg1 arg2 : CodePtr) (s : State) :
    Protocol b.noeval (evaluate false) [arg1, arg2] (callBuiltin P fuel evaluate d b.ptr)
      (yeBinary P fuel evaluate false (some d) arg1 arg2) s where
  unevaluated hnoeval := by
    simp [yeBinary, hb, hnoeval]
  calls hnoeval values s' h := by
    cases h with
    | cons first goes rest =>
      cases rest with
      | cons second goes' rest' =>
        cases rest'
        simp [yeBinary, hb, hnoeval, EState.bind_of_ok first, EState.bind_of_ok second, goes, goes']
  stops hnoeval s' h := by
    cases h with
    | here first halts => simp [yeBinary, hb, hnoeval, hnil, EState.bind_of_ok first, halts]
    | later first goes rest =>
      cases rest with
      | here second halts =>
        simp [yeBinary, hb, hnoeval, hnil, EState.bind_of_ok first, EState.bind_of_ok second, goes, halts]
      | later _ _ rest' => cases rest'
  faults hnoeval e s' h := by
    cases h with
    | here first => simp [yeBinary, hb, hnoeval, EState.bind_of_error first]
    | later first goes rest =>
      cases rest with
      | here second => simp [yeBinary, hb, hnoeval, EState.bind_of_ok first, EState.bind_of_error second, goes]
      | later _ _ rest' => cases rest'

/-! ### Builtins -/

lemma builtinArg_of_noeval (hnoeval : b.noeval = true) (code : CodePtr) :
    builtinArg P evaluate b code = pure (.code code) := by
  rw [builtinArg, hnoeval, Bool.or_true, if_pos rfl]

lemma builtinArg_of_eval (hnoeval : b.noeval = false) (code : CodePtr) :
    builtinArg P evaluate b code = argumentOutcome evaluate P code := by
  rw [builtinArg, hnoeval, Bool.or_false]
  rfl

lemma builtinArgs_of_noeval (hnoeval : b.noeval = true) (values : List YCPValue) (codes : List CodePtr) :
    builtinArgs P evaluate b values codes = pure (some (values ++ codes.map .code)) := by
  induction codes generalizing values with
  | nil => rw [builtinArgs, List.map_nil, List.append_nil]
  | cons code codes ih =>
    rw [builtinArgs, builtinArg_of_noeval hnoeval, pure_bind, isNil_code, Bool.false_and, if_neg Bool.false_ne_true,
      ih, List.map_cons, List.append_assoc, List.singleton_append]

/-- One more argument of the loop. -/
lemma builtinArgs_cons (hnoeval : b.noeval = false) (hnil : b.nil = false) {code : CodePtr} {value : YCPValue}
    {s' : State} (hfirst : argumentOutcome evaluate P code s = .ok value s') (values : List YCPValue)
    (codes : List CodePtr) :
    builtinArgs P evaluate b values (code :: codes) s =
      if isNil value = true then .ok none s' else builtinArgs P evaluate b (values ++ [value]) codes s' := by
  rw [builtinArgs, builtinArg_of_eval hnoeval, EState.bind_of_ok hfirst, hnil, Bool.not_false, Bool.and_true]
  split <;> rfl

lemma builtinArgs_of_through (hnoeval : b.noeval = false) (hnil : b.nil = false) {codes : List CodePtr}
    {values : List YCPValue} {s' : State} (h : Through (argumentOutcome evaluate P) isNil s codes values s')
    (before : List YCPValue) :
    builtinArgs P evaluate b before codes s = .ok (some (before ++ values)) s' := by
  induction h generalizing before with
  | nil => rw [builtinArgs, List.append_nil, EState.pure_apply]
  | cons first goes _ ih =>
    rw [builtinArgs_cons hnoeval hnil first, goes, if_neg Bool.false_ne_true, ih, List.append_assoc,
      List.singleton_append]

lemma builtinArgs_of_stops (hnoeval : b.noeval = false) (hnil : b.nil = false) {codes : List CodePtr}
    {s' : State} (h : Stops (argumentOutcome evaluate P) isNil s codes s') (before : List YCPValue) :
    builtinArgs P evaluate b before codes s = .ok none s' := by
  induction h generalizing before with
  | here first halts => rw [builtinArgs_cons hnoeval hnil first, if_pos halts]
  | later first goes _ ih => rw [builtinArgs_cons hnoeval hnil first, goes, if_neg Bool.false_ne_true, ih]

lemma builtinArgs_of_faults (hnoeval : b.noeval = false) (hnil : b.nil = false) {codes : List CodePtr} {e : Fault}
    {s' : State} (h : Faults (argumentOutcome evaluate P) isNil s codes e s') (before : List YCPValue) :
    builtinArgs P evaluate b before codes s = .error e s' := by
  induction h generalizing before with
  | here first => rw [builtinArgs, builtinArg_of_eval hnoeval, EState.bind_of_error first]
  | later first goes _ ih => rw [builtinArgs_cons hnoeval hnil first, goes, if_neg Bool.false_ne_true, ih]

lemma yeBuiltin_of_args (hb : P.builtin d = some b) {block : CodePtr} {parameters : List CodePtr}
    {r : Option (List YCPValue)} {s' : State}
    (hargs : builtinArgs P evaluate b [] (parameters.take maxargs) s = .ok r s') :
    yeBuiltin P fuel evaluate false (some d) block parameters s =
      match r with
      | none => .ok .null s'
      | some values => builtinImplementation evaluate P fuel d b block parameters values s' := by
  simp only [yeBuiltin, hb, Bool.false_eq_true, if_false]
  rw [EState.bind_of_ok hargs]
  cases r with
  | none => rfl
  | some values => rfl

lemma yeBuiltin_protocol (hb : P.builtin d = some b) (hnil : b.nil = false) (block : CodePtr)
    (parameters : List CodePtr) (s : State) :
    Protocol b.noeval (argumentOutcome evaluate P) (parameters.take maxargs)
      (builtinImplementation evaluate P fuel d b block parameters)
      (yeBuiltin P fuel evaluate false (some d) block parameters) s where
  unevaluated hnoeval := by
    refine yeBuiltin_of_args hb (r := some _) ?_
    rw [builtinArgs_of_noeval hnoeval, List.nil_append, EState.pure_apply]
  calls hnoeval values s' h := by
    refine yeBuiltin_of_args hb (r := some values) ?_
    rw [builtinArgs_of_through hnoeval hnil h, List.nil_append]
  stops hnoeval s' h := yeBuiltin_of_args hb (builtinArgs_of_stops hnoeval hnil h [])
  faults hnoeval e s' h := by
    simp only [yeBuiltin, hb, Bool.false_eq_true, if_false]
    rw [EState.bind_of_error (builtinArgs_of_faults hnoeval hnil h [])]

/-- Behind `YEBuiltin` no nil gets into the arguments; a missing argument is a null. -/
lemma passedArgs_not_void {parameters : List YType} {values : List YCPValue}
    (h : ∀ v ∈ values, isNil v = false) (count : Nat) :
    ∀ v ∈ passedArgs count (collectWildcard parameters values), v.isVoid = false := by
  have hvoid : ∀ v ∈ values, v.isVoid = false := fun v hv => (Bool.or_eq_false_iff.mp (h v hv)).2
  have hcollected : ∀ v ∈ collectWildcard parameters values, v.isVoid = false := by
    unfold collectWildcard
    split
    · exact List.forall_mem_append.mpr
        ⟨fun v hv => hvoid v (List.mem_of_mem_take hv), List.forall_mem_singleton.mpr rfl⟩
    · exact hvoid
  intro v hv
  rcases List.mem_append.mp (List.mem_of_mem_take hv) with hv | hv
  · exact hcollected v hv
  · rw [List.eq_of_mem_replicate hv]
    rfl

/-! ### Unary operators -/

lemma yeUnary_of_ok (hb : P.builtin d = some b) (hnil : b.nil = false) {arg : CodePtr} {value : YCPValue}
    {s' : State} (h : evaluate false arg s = .ok value s') :
    yeUnary P fuel evaluate false (some d) arg s =
      if value.isNull = true then .ok .null s' else callBuiltin P fuel evaluate d b.ptr [value] s' := by
  simp only [yeUnary, hb, hnil, Bool.false_eq_true, if_false, Bool.not_false, Bool.and_true]
  rw [EState.bind_of_ok h]
  split <;> rfl

lemma yeUnary_of_error (hb : P.builtin d = some b) {arg : CodePtr} {e : Fault} {s' : State}
    (h : evaluate false arg s = .error e s') :
    yeUnary P fuel evaluate false (some d) arg s = .error e s' := by
  simp only [yeUnary, hb, Bool.false_eq_true, if_false]
  rw [EState.bind_of_error h]

/-- A nil goes through to the implementation. -/
lemma yeUnary_of_void (hb : P.builtin d = some b) (hnil : b.nil = false) {arg : CodePtr} {value : YCPValue}
    {s' : State} (h : evaluate false arg s = .ok value s') (hvoid : value.isVoid = true) :
    yeUnary P fuel evaluate false (some d) arg s = callBuiltin P fuel evaluate d b.ptr [value] s' := by
  have hnull : value.isNull = false := by
    cases value <;> first | rfl | cases hvoid
  rw [yeUnary_of_ok hb hnil h, hnull, if_neg Bool.false_ne_true]

lemma yeUnary_protocol (hb : P.builtin d = some b) (hnil : b.nil = false) {arg : CodePtr}
    (h : UnaryKeeps evaluate b.noeval arg s) :
    Protocol b.noeval (evaluate false) [arg] (callBuiltin P fuel evaluate d b.ptr)
      (yeUnary P fuel evaluate false (some d) arg) s where
  unevaluated hnoeval := by
    rw [UnaryKeeps, if_pos hnoeval] at h
    exact yeUnary_of_ok hb hnil h
  calls hnoeval values s' hrun := by
    cases hrun with
    | cons first goes rest =>
      cases rest
      rw [yeUnary_of_ok hb hnil first, (Bool.or_eq_false_iff.mp goes).1, if_neg Bool.false_ne_true]
  stops hnoeval s' hrun := by
    rw [UnaryKeeps, hnoeval, if_neg Bool.false_ne_true] at h
    cases hrun with
    | @here _ _ _ _ value first halts =>
      have hnull : value.isNull = true := by
        rwa [isNil, h value s' first, Bool.or_false] at halts
      rw [yeUnary_of_ok hb hnil first, if_pos hnull]
    | later _ _ rest => cases rest
  faults hnoeval e s' hrun := by
    cases hrun with
    | here first => exact yeUnary_of_error hb first
    | later _ _ rest => cases rest

/-- A program with one declaration. -/
def declaring (b : Builtin) : Program :=
  { Program.ofNodes [] (fun _ => ⟨.c_unspec, .base .unspecT unqualified, 0⟩) 0 with builtin := fun _ => some b }

lemma unaryKeeps_of_protocol {noeval : Bool} {arg : CodePtr} (h : UnaryProtocol evaluate noeval arg s) :
    UnaryKeeps evaluate noeval arg s := by
  cases noeval with
  | false =>
    -- an implementation that crashes when it is called
    let b : Builtin := ⟨false, false, [], none, none⟩
    have hstops := (h (declaring b) 0 0 b rfl rfl rfl).stops rfl
    intro value s' hvalue
    by_contra hvoid
    have hvoid : value.isVoid = true := by simpa using hvoid
    have hnil : isNil value = true := by rw [isNil, hvoid, Bool.or_true]
    have hnull := hstops s' (.here hvalue hnil)
    rw [yeUnary_of_void (P := declaring b) (b := b) rfl rfl hvalue hvoid] at hnull
    cases hnull
  | true =>
    -- one that always returns nil, so that its call can be told from a failed protocol
    let b : Builtin := ⟨false, true, [], some fun _ => .ret .void, none⟩
    have hcalled := (h (declaring b) 0 0 b rfl rfl rfl).unevaluated rfl
    have hexpected : callBuiltin (declaring b) 0 evaluate 0 b.ptr [.code arg] s =
        .ok .void { s with trace := .builtin 0 [.code arg] :: s.trace } := rfl
    rw [List.map_singleton, hexpected] at hcalled
    cases hvalue : evaluate false arg s with
    | error e s' =>
      rw [yeUnary_of_error (P := declaring b) (b := b) rfl hvalue] at hcalled
      cases hcalled
    | ok value s' =>
      rw [yeUnary_of_ok (P := declaring b) (b := b) rfl rfl hvalue] at hcalled
      by_cases hnull : value.isNull = true
      · rw [if_pos hnull] at hcalled
        cases hcalled
      · have hactual : callBuiltin (declaring b) 0 evaluate 0 b.ptr [value] s' =
            .ok .void { s' with trace := .builtin 0 [value] :: s'.trace } := rfl
        rw [if_neg hnull, hactual] at hcalled
        have hstate := (EStateM.Result.ok.inj hcalled).2
        cases s
        cases s'
        cases hstate
        exact hvalue

/-! ### The protocol of the three -/

/-- `YEBinary` and `YEBuiltin` keep the protocol whatever their arguments evaluate to; `YEUnary` keeps it
exactly if its argument is not nil and, where the declaration wants it unevaluated, is its own code. -/
theorem nilProtocol_iff (evaluate : Evaluator) (noeval : Bool) (s : State) :
    (∀ arg, UnaryProtocol evaluate noeval arg s ↔ UnaryKeeps evaluate noeval arg s) ∧
      (∀ arg1 arg2, BinaryProtocol evaluate noeval arg1 arg2 s) ∧
      (∀ block parameters, BuiltinProtocol evaluate noeval block parameters s) ∧
      ∀ parameters count values, (∀ v ∈ values, isNil v = false) →
        ∀ v ∈ passedArgs count (collectWildcard parameters values), v.isVoid = false := by
  refine ⟨fun arg => ⟨unaryKeeps_of_protocol, ?_⟩, ?_, ?_, fun _ count _ h => passedArgs_not_void h count⟩
  · rintro h P fuel d b hb hnil rfl
    exact yeUnary_protocol hb hnil h
  · rintro arg1 arg2 P fuel d b hb hnil rfl
    exact yeBinary_protocol hb hnil arg1 arg2 s
  · rintro block parameters P fuel d b hb hnil rfl
    exact yeBuiltin_protocol hb hnil block parameters s

end Keeps

/-! ### The nodes of a program -/

/-- The protocol of a node, by the evaluation of its program. -/
theorem evaluate_protocol {P : Program} {d : DeclId} {b : Builtin} (hb : P.builtin d = some b)
    (hnil : b.nil = false) (fuel : Nat) (ptr : CodePtr) (s : State) :
    (∀ arg, P.code ptr = some (.yeUnary (some d) arg) → UnaryKeeps (evaluate P fuel) b.noeval arg s →
      Protocol b.noeval (evaluate P fuel false) [arg] (callBuiltin P fuel (evaluate P fuel) d b.ptr)
        (evaluate P (fuel + 1) false ptr) s) ∧
    (∀ arg1 arg2, P.code ptr = some (.yeBinary (some d) arg1 arg2) →
      Protocol b.noeval (evaluate P fuel false) [arg1, arg2] (callBuiltin P fuel (evaluate P fuel) d b.ptr)
        (evaluate P (fuel + 1) false ptr) s) ∧
    ∀ type block parameters, P.code ptr = some (.yeBuiltin type (some d) block parameters) →
      Protocol b.noeval (argumentOutcome (evaluate P fuel) P) (parameters.take maxargs)
        (builtinImplementation (evaluate P fuel) P fuel d b block parameters)
        (evaluate P (fuel + 1) false ptr) s := by
  refine ⟨fun arg hcode h => ?_, fun arg1 arg2 hcode => ?_, fun type block parameters hcode => ?_⟩
  · rw [evaluate, hcode]
    exact yeUnary_protocol hb hnil h
  · rw [evaluate, hcode]
    exact yeBinary_protocol hb hnil arg1 arg2 s
  · rw [evaluate, hcode]
    exact yeBuiltin_protocol hb hnil block parameters s

/-- `i_neg`; a value that is no integer would be read as one. -/
def iNeg : List YCPValue → BuiltinRun
  | [v] =>
    if v.isNull then .ret .null
    else
      match v with
      | .integer i => .ret (.integer (-i))
      | _ => .crash
  | _ => .crash

/-- `-x` for a variable `x`, with the declaration of the operator. -/
def negation : Program :=
  { Program.ofNodes [.yeVariable ⟨.block 0, 0⟩, .yeUnary (some 0) 1]
      (fun _ => ⟨.c_variable, .base .integerT unqualified, 0⟩) 0 with
    builtin := fun _ => some ⟨false, false, [.base .integerT unqualified], some iNeg, none⟩ }

theorem negation_gets_nil :
    ¬UnaryProtocol (evaluate negation 2) false 1 { State.start with value := fun _ => .void } ∧
      evaluate negation 3 false 2 { State.start with value := fun _ => .void } =
        .error .crash
          { State.start with value := fun _ => .void, trace := [.builtin 0 [.void]] } := by
  refine ⟨fun h => ?_, rfl⟩
  have hkeeps := unaryKeeps_of_protocol h .void { State.start with value := fun _ => .void } rfl
  cases hkeeps

end YastCore.Interp
