import Mathlib.Data.List.Nodup
import YastCore.Interp.AdmitsStates

/-!
# Activations

A formal parameter is one symbol entry for all activations of its function. `evaluateCall` saves its
value on the recursion stack of the entry and takes it back from there; whether that gives the value
of the caller depends on everything that is evaluated between, so the stacks must come out as they
went in.
-/

namespace YastCore.Interp

open Discipline

def State.stackOf (s : State) (e : EntryRef) : List YCPValue := (s.stack e).getD []

/-! ### Pushing and popping -/

lemma pushAll_ok (entries : List EntryRef) (s : State) :
    ∃ s', pushAll entries s = .ok () s' ∧ s'.value = s.value ∧
      ∀ e, s'.stackOf e = List.replicate (entries.count e) (s.value e) ++ s.stackOf e := by
  induction entries generalizing s with
  | nil => exact ⟨s, rfl, rfl, fun e => rfl⟩
  | cons e₀ es ih =>
    obtain ⟨s', hrun, hvalue, hstack⟩ := ih { s with
      stack := Function.update s.stack e₀ (some (s.value e₀ :: (s.stack e₀).getD [])) }
    refine ⟨s', hrun, hvalue, fun e => ?_⟩
    rw [hstack e]
    by_cases he : e₀ = e
    · subst he
      rw [List.count_cons_self, List.replicate_succ']
      simp [State.stackOf]
    · rw [List.count_cons_of_ne he]
      simp [State.stackOf, Function.update_of_ne (Ne.symm he)]

/-- One entry popped. -/
lemma pop_ok {e : EntryRef} {s s' : State} (h : pop e s = .ok () s') :
    (∀ e', s'.stackOf e' = if e' = e then (s.stackOf e').tail else s.stackOf e') ∧
      ∀ e', s'.value e' = if e' = e then (s.stackOf e').headD (s.value e') else s.value e' := by
  unfold pop at h
  rw [EState.get_bind] at h
  cases hstack : s.stack e with
  | none =>
    rw [hstack] at h
    cases h
    constructor
    · intro e'
      split
      next he => simp [he, State.stackOf, hstack]
      next => rfl
    · intro e'
      split
      next he => simp [he, State.stackOf, hstack]
      next => rfl
  | some l =>
    rw [hstack] at h
    cases l with
    | nil => cases h
    | cons v rest =>
      cases h
      constructor
      · intro e'
        by_cases he : e' = e
        · subst he
          simp [State.stackOf, hstack]
        · simp [State.stackOf, he]
      · intro e'
        by_cases he : e' = e
        · subst he
          simp [State.stackOf, hstack]
        · simp [he]

lemma popAll_stackOf {entries : List EntryRef} {s s' : State} (h : popAll entries s = .ok () s')
    (e : EntryRef) : s'.stackOf e = (s.stackOf e).drop (entries.count e) := by
  induction entries generalizing s with
  | nil =>
    cases h
    simp
  | cons e₀ es ih =>
    obtain ⟨_, s₁, hpop, hrest⟩ := EState.bind_ok_iff.mp h
    rw [ih hrest, (pop_ok hpop).1 e]
    by_cases he : e = e₀
    · subst he
      rw [if_pos rfl, List.count_cons_self, List.drop_tail]
    · rw [if_neg he, List.count_cons_of_ne (Ne.symm he)]

lemma popAll_value_of_not_mem {entries : List EntryRef} {s s' : State}
    (h : popAll entries s = .ok () s') {e : EntryRef} (he : e ∉ entries) :
    s'.value e = s.value e := by
  induction entries generalizing s with
  | nil =>
    cases h
    rfl
  | cons e₀ es ih =>
    obtain ⟨_, s₁, hpop, hrest⟩ := EState.bind_ok_iff.mp h
    rw [List.mem_cons, not_or] at he
    rw [ih hrest he.2, (pop_ok hpop).2 e, if_neg he.1]

/-- An entry popped once gets the value on top of its stack. -/
lemma popAll_value {entries : List EntryRef} (hnodup : entries.Nodup) {s s' : State}
    (h : popAll entries s = .ok () s') {e : EntryRef} (he : e ∈ entries) {v : YCPValue}
    {rest : List YCPValue} (hstack : s.stackOf e = v :: rest) : s'.value e = v := by
  induction entries generalizing s with
  | nil => simp at he
  | cons e₀ es ih =>
    obtain ⟨_, s₁, hpop, hrest⟩ := EState.bind_ok_iff.mp h
    obtain ⟨hstack₁, hvalue₁⟩ := pop_ok hpop
    obtain ⟨hnot, hnodup⟩ := List.nodup_cons.mp hnodup
    by_cases heq : e = e₀
    · subst heq
      rw [popAll_value_of_not_mem hrest hnot, hvalue₁ e, if_pos rfl, hstack]
      rfl
    · have hmem : e ∈ es := by
        rcases List.mem_cons.mp he with h | h
        · exact absurd h heq
        · exact h
      refine ih hnodup hrest hmem ?_
      rw [hstack₁ e, if_neg heq]
      exact hstack

/-! ### The stacks over a run -/

/-- A symbol whose recursion stack is kept: no function that is only declared has it as a formal
parameter, and no module as a variable. -/
structure StackKept (P : Program) (e : EntryRef) : Prop where
  defined : ∀ p declaration definition, P.code p = some (.ycFunction declaration definition) →
    e ∈ P.formals declaration → (P.code definition).isSome
  notModule : ∀ p info table point statements,
    P.code p = some (.yeBlock info table point statements) → info.kind = .b_module →
    e ∉ P.variableSymbols info

/-- A part of a run leaves these stacks as they were. -/
def stackDiscipline (P : Program) : Discipline State where
  inv := fun _ => True
  le := fun s s' => ∀ e, StackKept P e → s'.stackOf e = s.stackOf e
  halted := fun _ => True
  refl := fun _ _ _ => rfl
  trans := fun h h' e he => (h' e he).trans (h e he)
  halted_of_inv := fun _ => trivial

section Calls

variable {P : Program} {fuel : Nat} {evaluate : Evaluator}

lemma freeValues_stacks : FreeValues (stackDiscipline P) := fun _ _ _ => ⟨trivial, fun _ _ => rfl⟩

/-- What is pushed before a body that leaves the stacks alone is there to be popped after it. -/
lemma withPushed_stacks {entries : List EntryRef} {body : M YCPValue}
    (hbody : (stackDiscipline P).Keeps body anyValue) :
    (stackDiscipline P).Keeps (withPushed entries body) anyValue := by
  intro s _
  refine runs_of (fun v s' hrun => ⟨trivial, fun e he => ?_, trivial⟩) fun _ _ _ => trivial
  obtain ⟨_, s₁, hpush, hrun⟩ := EState.bind_ok_iff.mp hrun
  obtain ⟨v, s₂, hmiddle, hrun⟩ := EState.bind_ok_iff.mp hrun
  obtain ⟨_, s₃, hpop, hrun⟩ := EState.bind_ok_iff.mp hrun
  cases hrun
  obtain ⟨t, ht, -, hstack⟩ := pushAll_ok entries s
  rw [hpush] at ht
  cases ht
  have hkept := ((hbody s₁ trivial).of_ok hmiddle).2.1 e he
  rw [popAll_stackOf hpop e, hkept, hstack e]
  simp

/-- What `evaluateCall` does to the stacks: the formal parameters are pushed, and popped again unless
the function is only declared. -/
lemma runFunction_ok (h : Evaluates (stackDiscipline P) anyValue evaluate) {call : FunctionCall}
    {declaration definition : CodePtr} {s s' : State} {v : YCPValue}
    (hf : P.code (P.symbol call.sentry).code = some (.ycFunction declaration definition))
    (hrun : runFunction P fuel evaluate call s = .ok v s') :
    ∃ s₁, pushAll (P.formals declaration) s = .ok () s₁ ∧
      (P.code definition = none ∧ s' = s₁ ∨
        (P.code definition).isSome ∧ ∃ s₂, (stackDiscipline P).le s₁ s₂ ∧
          popAll (P.formals declaration) s₂ = .ok () s') := by
  unfold runFunction at hrun
  rw [hf] at hrun
  dsimp only at hrun
  obtain ⟨_, s₁, hpush, hrun⟩ := EState.bind_ok_iff.mp hrun
  refine ⟨s₁, hpush, ?_⟩
  cases hdef : P.code definition with
  | none =>
    rw [hdef] at hrun
    cases hrun
    exact .inl ⟨rfl, rfl⟩
  | some node =>
    rw [hdef] at hrun
    dsimp only at hrun
    refine .inr ⟨rfl, ?_⟩
    obtain ⟨bound, s₂, hbind, hrun⟩ := EState.bind_ok_iff.mp hrun
    have hle : (stackDiscipline P).le s₁ s₂ := ((bindFormals_keeps freeValues_stacks
      call.parameters 0 (P.formals declaration) s₁ trivial).of_ok hbind).2.1
    cases bound with
    | true =>
      obtain ⟨value, s₃, hbody, hrun⟩ := EState.bind_ok_iff.mp hrun
      obtain ⟨_, s₄, hpop, hrun⟩ := EState.bind_ok_iff.mp hrun
      cases hrun
      have hle' := ((h false definition s₂ trivial).of_ok hbody).2.1
      exact ⟨s₃, (stackDiscipline P).trans hle hle', hpop⟩
    | false =>
      obtain ⟨_, s₃, hpop, hrun⟩ := EState.bind_ok_iff.mp hrun
      cases hrun
      exact ⟨s₂, hle, hpop⟩

lemma runFunction_stacks (h : Evaluates (stackDiscipline P) anyValue evaluate)
    (call : FunctionCall) :
    (stackDiscipline P).Keeps (runFunction P fuel evaluate call) anyValue := by
  intro s _
  refine runs_of (fun v s' hrun => ⟨trivial, fun e he => ?_, trivial⟩) fun _ _ _ => trivial
  cases hcode : P.code (P.symbol call.sentry).code with
  | none =>
    simp only [runFunction, hcode] at hrun
    cases hrun
  | some node =>
    cases node with
    | ycFunction declaration definition =>
      obtain ⟨s₁, hpush, hcases⟩ := runFunction_ok h hcode hrun
      obtain ⟨t, ht, -, hstack⟩ := pushAll_ok (P.formals declaration) s
      rw [hpush] at ht
      cases ht
      rcases hcases with ⟨hnone, rfl⟩ | ⟨-, s₂, hle, hpop⟩
      · have hnot : e ∉ P.formals declaration := by
          intro hmem
          have hsome := he.defined _ _ _ hcode hmem
          rw [hnone] at hsome
          cases hsome
        rw [hstack e, List.count_eq_zero_of_not_mem hnot]
        rfl
      · rw [popAll_stackOf hpop e, hle e he, hstack e]
        simp
    | _ =>
      simp only [runFunction, hcode] at hrun
      cases hrun

lemma evaluateCall_stacks (h : Evaluates (stackDiscipline P) anyValue evaluate)
    (call : FunctionCall) :
    (stackDiscipline P).Keeps (evaluateCall P fuel evaluate call) anyValue := by
  intro s _
  refine runs_modify (fun e _ => rfl) ?_
  refine runs_bind (runFunction_stacks h call _ trivial) fun v s₁ _ _ _ => ?_
  exact runs_modify (fun e _ => rfl) (runs_pure trivial trivial)

lemma unframedCall_stacks (h : Evaluates (stackDiscipline P) anyValue evaluate)
    (call : FunctionCall) :
    (stackDiscipline P).Keeps (unframedCall P fuel evaluate call) anyValue := by
  intro s _
  refine runs_modify (fun e _ => rfl) ?_
  refine runs_bind (evaluateCall_stacks h call _ trivial) fun v s₁ _ _ _ => ?_
  exact runs_modify (fun e _ => rfl) (runs_pure trivial trivial)

lemma framedCall_stacks (h : Evaluates (stackDiscipline P) anyValue evaluate) (node : CodePtr)
    (args : List YCPValue) (call : FunctionCall) :
    (stackDiscipline P).Keeps (framedCall P fuel evaluate node args call) anyValue := by
  intro s _
  refine runs_modify (fun e _ => rfl) ?_
  refine runs_bind (evaluateCall_stacks h call _ trivial) fun v s₁ _ _ _ => ?_
  exact runs_modify (fun e _ => rfl) (runs_pure trivial trivial)

lemma attachArgs_stacks (node : CodePtr) (args : List YCPValue) :
    (stackDiscipline P).Keeps (attachArgs P node args) fun _ _ => True := by
  intro s _
  refine runs_get ?_
  split
  · exact runs_throw trivial
  split
  · exact runs_throw trivial
  · exact ⟨trivial, fun e _ => rfl, trivial⟩

lemma prepareCall_stacks (h : Evaluates (stackDiscipline P) anyValue evaluate) (node : CodePtr)
    (f : EntryRef) (parameters : List CodePtr) :
    (stackDiscipline P).Keeps (prepareCall P evaluate node f parameters) fun _ _ => True := by
  intro s _
  refine runs_modify (fun e _ => rfl) ?_
  refine runs_bind (freeValues_stacks.admits.evaluateParameters_runs h parameters trivial
    (List.forall_mem_nil _)) fun args s₁ _ _ _ => ?_
  refine runs_modify (fun e _ => rfl) ?_
  split
  · exact runs_pure trivial trivial
  · refine runs_bind (attachArgs_stacks node _ _ trivial) fun _ s₂ _ _ _ => ?_
    exact runs_pure trivial trivial

lemma takeCall_stacks (node : CodePtr) (f : EntryRef) (args : List YCPValue) :
    (stackDiscipline P).Keeps (takeCall node f args) fun _ _ => True := by
  intro s _
  refine runs_get ?_
  split
  · exact runs_throw trivial
  · exact runs_modify (fun e _ => rfl) (runs_pure trivial trivial)

lemma directCall_stacks (node : CodePtr) (entry : EntryRef) :
    (stackDiscipline P).Keeps (directCall P node entry) fun _ _ => True := by
  intro s _
  refine runs_get ?_
  split
  · split
    · exact runs_pure trivial trivial
    · exact runs_modify (fun e _ => rfl) (runs_pure trivial trivial)
  · exact runs_modify (fun e _ => rfl) (runs_pure trivial trivial)

lemma yeFunction_stacks (h : Evaluates (stackDiscipline P) anyValue evaluate) (node : CodePtr)
    (entry : EntryRef) (parameters : List CodePtr) :
    (stackDiscipline P).Keeps (yeFunction P fuel evaluate false node entry parameters) anyValue := by
  intro s _
  refine runs_bind (directCall_stacks node entry s trivial) fun f s₁ _ _ _ => ?_
  split
  · exact runs_pure trivial trivial
  refine runs_bind (prepareCall_stacks h node _ parameters s₁ trivial) fun args s₂ _ _ _ => ?_
  split
  · exact runs_pure trivial trivial
  refine runs_get ?_
  split
  · exact runs_pure trivial trivial
  refine runs_bind (takeCall_stacks node _ _ s₂ trivial) fun call s₃ _ _ _ => ?_
  exact framedCall_stacks h node _ call s₃ trivial

lemma yeFunctionPointer_stacks (h : Evaluates (stackDiscipline P) anyValue evaluate)
    (node : CodePtr) (entry : EntryRef) (parameters : List CodePtr) :
    (stackDiscipline P).Keeps (yeFunctionPointer P fuel evaluate false node entry parameters)
      anyValue := by
  intro s _
  refine runs_bind (freeValues_stacks.admits.entryValue_keeps entry s trivial) fun value s₁ _ _ _ => ?_
  split
  · split
    · exact runs_pure trivial trivial
    refine runs_modify (fun e _ => rfl) ?_
    refine runs_bind (prepareCall_stacks h node _ parameters _ trivial) fun args s₂ _ _ _ => ?_
    split
    · exact runs_pure trivial trivial
    refine runs_bind (takeCall_stacks node _ _ s₂ trivial) fun call s₃ _ _ _ => ?_
    exact unframedCall_stacks h call s₃ trivial
  · exact runs_pure trivial trivial

end Calls

/-- The variables of a module pushed for good are not among these symbols. -/
lemma pushModule_stacks {P : Program} {info : BlockInfo} {p : CodePtr}
    {table : List (TableItem CodePtr)} {point : Point} {statements : List CodePtr}
    (hp : P.code p = some (.yeBlock info table point statements)) (hkind : info.kind = .b_module) :
    (stackDiscipline P).Keeps (pushAll (P.variableSymbols info)) fun _ _ => True := by
  intro s _
  obtain ⟨s', hrun, -, hstack⟩ := pushAll_ok (P.variableSymbols info) s
  refine runs_of (fun _ t ht => ⟨trivial, fun e he => ?_, trivial⟩) fun _ _ _ => trivial
  rw [hrun] at ht
  cases ht
  have hnot : e ∉ P.variableSymbols info := he.notModule _ _ _ _ _ hp hkind
  rw [hstack e, List.count_eq_zero_of_not_mem hnot]
  rfl

lemma admits_stacks (P : Program) : AdmitsStates P (stackDiscipline P) where
  value := freeValues_stacks
  running := fun _ => ⟨trivial, fun _ _ => rfl⟩
  initialized := fun _ => ⟨trivial, fun _ _ => rfl⟩
  world := fun _ => ⟨trivial, fun _ _ => rfl⟩
  mapEntry := fun _ => ⟨trivial, fun _ _ => rfl⟩
  builtin := fun _ => ⟨trivial, fun _ _ => rfl⟩
  pushed := withPushed_stacks
  pushedModule := pushModule_stacks
  function := fun h _ => yeFunction_stacks h _ _ _
  functionPointer := fun h _ => yeFunctionPointer_stacks h _ _ _
  constructor := fun h => unframedCall_stacks h _

/-! ### Calls -/

/-- A formal parameter belongs to the declaration of one function, and is no variable of a module. -/
structure FormalsApart (P : Program) : Prop where
  function : ∀ {p q declaration definition declaration' definition' e},
    P.code p = some (.ycFunction declaration definition) →
    P.code q = some (.ycFunction declaration' definition') →
    e ∈ P.formals declaration → e ∈ P.formals declaration' → definition = definition'
  module : ∀ {p q declaration definition info table point statements e},
    P.code p = some (.ycFunction declaration definition) → e ∈ P.formals declaration →
    P.code q = some (.yeBlock info table point statements) → info.kind = .b_module →
    e ∉ P.variableSymbols info

lemma FormalsApart.stackKept {P : Program} (hP : FormalsApart P) {p declaration definition : CodePtr}
    (hf : P.code p = some (.ycFunction declaration definition))
    (hdef : (P.code definition).isSome) {e : EntryRef} (he : e ∈ P.formals declaration) :
    StackKept P e where
  defined := by
    intro q declaration' definition' hq he'
    rw [← hP.function hf hq he he']
    exact hdef
  notModule := by
    intro q info table point statements hq hkind
    exact hP.module hf he hq hkind

lemma formals_nodup (P : Program) (declaration : CodePtr) : (P.formals declaration).Nodup := by
  unfold Program.formals
  split
  · refine List.Nodup.map ?_ List.nodup_range
    intro i j hij
    exact congrArg EntryRef.position hij
  · exact List.nodup_nil

/-- A call that comes back has given every formal parameter of its function the value and the
recursion stack that it had before, exactly when the function is defined or has no parameters. -/
theorem evaluateCall_restores_iff (P : Program) (hP : FormalsApart P) (fuel : Nat)
    (call : FunctionCall) (declaration definition : CodePtr)
    (hf : P.code (P.symbol call.sentry).code = some (.ycFunction declaration definition))
    (s s' : State) (v : YCPValue)
    (hrun : evaluateCall P fuel (evaluate P fuel) call s = .ok v s') :
    (∀ e ∈ P.formals declaration, s'.value e = s.value e ∧ s'.stackOf e = s.stackOf e) ↔
      (P.code definition).isSome ∨ P.formals declaration = [] := by
  obtain ⟨_, s₀, henter, hrun⟩ := EState.bind_ok_iff.mp hrun
  obtain ⟨value, s₁, hbody, hleave⟩ := EState.bind_ok_iff.mp hrun
  cases henter
  cases hleave
  obtain ⟨s₂, hpush, hcases⟩ := runFunction_ok ((admits_stacks P).evaluates fuel) hf hbody
  obtain ⟨t, ht, hvalue, hstack⟩ := pushAll_ok (P.formals declaration) _
  rw [hpush] at ht
  cases ht
  have hcount (e : EntryRef) (he : e ∈ P.formals declaration) :
      s₂.stackOf e = s.value e :: s.stackOf e := by
    rw [hstack e, List.count_eq_one_of_mem (formals_nodup P declaration) he]
    rfl
  rcases hcases with ⟨hnone, rfl⟩ | ⟨hsome, s₃, hle, hpop⟩
  · rw [hnone]
    simp only [Option.isSome_none, Bool.false_eq_true, false_or]
    constructor
    · intro hsame
      rw [List.eq_nil_iff_forall_not_mem]
      intro e he
      have hgrown := hcount e he
      have hstack' : s₁.stackOf e = s.stackOf e := (hsame e he).2
      rw [hstack'] at hgrown
      exact List.cons_ne_self _ _ hgrown.symm
    · intro hnil e he
      rw [hnil] at he
      cases he
  · simp only [hsome, true_or, iff_true]
    intro e he
    have hkept := hP.stackKept hf hsome he
    have htop : s₃.stackOf e = s.value e :: s.stackOf e := (hle e hkept).trans (hcount e he)
    refine ⟨popAll_value (formals_nodup P declaration) hpop he htop, ?_⟩
    have hdrop := popAll_stackOf hpop e
    rw [htop, List.count_eq_one_of_mem (formals_nodup P declaration) he] at hdrop
    exact hdrop

/-! ### A function that is only declared -/

def gEntry : EntryRef := ⟨.block 0, 0⟩

def xEntry : EntryRef := ⟨.block 7, 0⟩

/-- The function `any g (integer x)` with an empty body, at the address 3, or without one. -/
def declares (definition : CodePtr) : Program :=
  .ofNodes [.yeBlock ⟨7, .ofBuffer [], .b_unknown, 1⟩ [] ⟨gEntry, 0, []⟩ [], .ycFunction 1 definition,
    .yeBlock ⟨8, .ofBuffer [], .b_definition, 0⟩ [] ⟨gEntry, 0, []⟩ []]
    (fun e => if e = gEntry then
      ⟨.c_function, .functionT (.base .anyT unqualified) [.base .integerT unqualified] unqualified, 2⟩
      else ⟨.c_variable, .base .integerT unqualified, 0⟩) 100

lemma declares_function {definition p d d' : CodePtr}
    (h : (declares definition).code p = some (.ycFunction d d')) : d = 1 ∧ d' = definition := by
  rcases p with _ | _ | _ | _ | p
  · cases h
  · cases h
  · cases h
    exact ⟨rfl, rfl⟩
  · cases h
  · cases h

lemma formalsApart_declares (definition : CodePtr) : FormalsApart (declares definition) where
  function := by
    intro p q d d' e e' x hp hq _ _
    rw [(declares_function hp).2, (declares_function hq).2]
  module := by
    intro p q d d' info table point statements x _ _ hq hkind
    rcases q with _ | _ | _ | _ | q
    · cases hq
    · cases hq
      cases hkind
    · cases hq
    · cases hq
      cases hkind
    · cases hq

theorem evaluateCall_restores_defined :
    ∃ v s', evaluateCall (declares 3) 5 (evaluate (declares 3) 5) ⟨gEntry, [.integer 5]⟩
        State.start = .ok v s' ∧
      ∀ e ∈ (declares 3).formals 1, s'.value e = State.start.value e ∧
        s'.stackOf e = State.start.stackOf e :=
  ⟨_, _, rfl, (evaluateCall_restores_iff (declares 3) (formalsApart_declares 3) 5
    ⟨gEntry, [.integer 5]⟩ 1 3 rfl State.start _ _ rfl).mpr (.inl rfl)⟩

/-- After the call of a function that is only declared its parameter is still pushed. -/
theorem evaluateCall_undefined :
    ∃ s', evaluateCall (declares 0) 5 (evaluate (declares 0) 5) ⟨gEntry, [.integer 5]⟩
        State.start = .ok .null s' ∧ xEntry ∈ (declares 0).formals 1 ∧
      s'.stackOf xEntry ≠ State.start.stackOf xEntry := by
  refine ⟨_, rfl, List.mem_cons_self, ?_⟩
  intro h
  cases h

end YastCore.Interp
