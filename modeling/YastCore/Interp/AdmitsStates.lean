import YastCore.Interp.Admits

/-!
# Invariants of states

Disciplines that ask nothing of the values. Most of them do not look at the symbol entries at all, so
whatever is pushed, popped and assigned does not matter to them.
-/

namespace YastCore.Interp

open Discipline

/-- Any value is good. -/
def anyValue (_ : State) (_ : YCPValue) : Prop := True

/-- The values of the symbols may be anything. -/
def FreeValues (D : Discipline State) : Prop :=
  ∀ s r, D.inv s → D.inv { s with value := r } ∧ D.le s { s with value := r }

/-- The recursion stacks may be anything. -/
def FreeStacks (D : Discipline State) : Prop :=
  ∀ s r, D.inv s → D.inv { s with stack := r } ∧ D.le s { s with stack := r }

section Symbols

variable {P : Program} {D : Discipline State} {fuel : Nat} {evaluate : Evaluator}

lemma FreeValues.admits (hvalue : FreeValues D) : AdmitsValues D anyValue where
  mono := fun _ _ => trivial
  plain := fun _ => trivial
  read := fun _ => trivial
  assign := fun hs _ => hvalue _ _ hs

lemma FreeStacks.admits (hstack : FreeStacks D) (hvalue : FreeValues D) :
    AdmitsSymbols D anyValue where
  toAdmitsValues := hvalue.admits
  push := fun hs => hstack _ _ hs
  pop := by
    intro s e v rest hs _
    obtain ⟨hinv, hle⟩ := hvalue s (Function.update s.value e v) hs
    obtain ⟨hinv', hle'⟩ := hstack _ (Function.update s.stack e (some rest)) hinv
    exact ⟨hinv', D.trans hle hle'⟩

lemma bindFormals_keeps (hvalue : FreeValues D) (parameters : List YCPValue) (p : Nat)
    (formals : List EntryRef) : D.Keeps (bindFormals P fuel parameters p formals) fun _ _ => True :=
  fun _ hs => hvalue.admits.bindFormals_runs p formals hs fun _ _ => trivial

lemma runFunction_keeps (hvalue : FreeValues D) (hstack : FreeStacks D)
    (h : Evaluates D anyValue evaluate) (call : FunctionCall) :
    D.Keeps (runFunction P fuel evaluate call) anyValue :=
  fun _ hs => (hstack.admits hvalue).runFunction_runs h hs fun _ _ => trivial

end Symbols

/-- What a discipline must admit when nothing is asked of the values. -/
structure AdmitsStates (P : Program) (D : Discipline State) : Prop where
  value : FreeValues D
  running : ∀ {s r}, D.inv s → D.inv { s with running := r } ∧ D.le s { s with running := r }
  initialized : ∀ {s r}, D.inv s →
    D.inv { s with initialized := r } ∧ D.le s { s with initialized := r }
  world : ∀ {s r}, D.inv s → D.inv { s with world := r } ∧ D.le s { s with world := r }
  mapEntry : ∀ {s k v}, D.inv s →
    D.inv { s with trace := .mapEntry k v :: s.trace } ∧
      D.le s { s with trace := .mapEntry k v :: s.trace }
  builtin : ∀ {s d args}, D.inv s →
    D.inv { s with trace := .builtin d args :: s.trace } ∧
      D.le s { s with trace := .builtin d args :: s.trace }
  pushed : ∀ {entries body}, D.Keeps body anyValue → D.Keeps (withPushed entries body) anyValue
  pushedModule : ∀ {p info table point statements},
    P.code p = some (.yeBlock info table point statements) → info.kind = .b_module →
    D.Keeps (pushAll (P.variableSymbols info)) fun _ _ => True
  function : ∀ {fuel evaluate node entry parameters}, Evaluates D anyValue evaluate →
    P.code node = some (.yeFunction entry parameters) →
    D.Keeps (yeFunction P fuel evaluate false node entry parameters) anyValue
  functionPointer : ∀ {fuel evaluate node entry parameters}, Evaluates D anyValue evaluate →
    P.code node = some (.yeFunctionPointer entry parameters) →
    D.Keeps (yeFunctionPointer P fuel evaluate false node entry parameters) anyValue
  constructor : ∀ {fuel evaluate f}, Evaluates D anyValue evaluate →
    D.Keeps (unframedCall P fuel evaluate (.fresh P f)) anyValue

namespace AdmitsStates

variable {P : Program} {D : Discipline State} {s : State} {fuel : Nat} {evaluate : Evaluator}

lemma runBuiltin_keeps (A : AdmitsStates P D) (h : Evaluates D anyValue evaluate)
    (run : BuiltinRun) : D.Keeps (runBuiltin P fuel evaluate run) anyValue := by
  induction run with
  | ret v => exact fun s hs => runs_pure hs trivial
  | crash => exact fun s hs => runs_throw hs
  | evaluate code next ih =>
    exact fun s hs => runs_bind (h false code s hs) fun v s' hs' _ _ => ih v s' hs'
  | value entry next ih =>
    exact fun s hs => runs_bind (A.value.admits.entryValue_keeps entry s hs) fun v s' hs' _ _ => ih v s' hs'
  | setValue entry v next ih =>
    exact fun s hs => runs_bind (A.value.admits.setValue_runs hs trivial) fun _ s' hs' _ _ => ih s' hs'
  | outside act next ih =>
    intro s hs
    obtain ⟨hinv, hle⟩ := A.world (r := (act s.world).2) hs
    refine runs_get ?_
    exact runs_modify hle (ih _ _ hinv)

lemma callBuiltin_keeps (A : AdmitsStates P D) (h : Evaluates D anyValue evaluate) (d : DeclId)
    (ptr : Option (List YCPValue → BuiltinRun)) (args : List YCPValue) :
    D.Keeps (callBuiltin P fuel evaluate d ptr args) anyValue := by
  intro s hs
  unfold callBuiltin
  split
  · exact runs_throw hs
  · obtain ⟨hinv, hle⟩ := A.builtin (d := d) hs
    exact runs_modify hle (A.runBuiltin_keeps h _ _ hinv)

lemma applyBuiltin_keeps (A : AdmitsStates P D) (h : Evaluates D anyValue evaluate) (d : DeclId)
    (b : Builtin) (block : CodePtr) (args : List YCPValue) :
    D.Keeps (applyBuiltin P fuel evaluate d b block args) anyValue := by
  unfold applyBuiltin
  dsimp only
  split
  · exact fun s hs => runs_pure hs trivial
  split
  · exact A.callBuiltin_keeps h _ _ _
  · exact fun s hs => runs_pure hs trivial
  · apply A.pushed
    split
    · exact A.callBuiltin_keeps h _ _ _
    · exact fun s hs => runs_pure hs trivial

lemma addEntry_keeps (A : AdmitsStates P D) (m : List (YCPValue × YCPValue)) (k v : YCPValue) :
    D.Keeps (addEntry m k v) fun _ _ => True := by
  intro s hs
  obtain ⟨hinv, hle⟩ := A.mapEntry (k := k) (v := v) hs
  refine runs_modify hle ?_
  split
  · exact runs_pure hinv trivial
  · exact runs_throw hinv

theorem admits (A : AdmitsStates P D) : Admits P D anyValue where
  toAdmitsValues := A.value.admits
  constant := fun _ => trivial
  list := fun _ => trivial
  term := fun _ => trivial
  emptyMap := trivial
  addEntry := fun hs _ _ _ => A.addEntry_keeps _ _ _ _ hs
  bracketLoop := fun _ _ => trivial
  commit := fun _ _ _ _ => trivial
  running := A.running
  initialized := A.initialized
  pushed := A.pushed
  pushedModule := A.pushedModule
  callBuiltin := fun h _ hs _ _ => A.callBuiltin_keeps h _ _ _ _ hs
  applyBuiltin := fun h _ hs _ _ => A.applyBuiltin_keeps h _ _ _ _ _ hs
  function := A.function
  functionPointer := A.functionPointer
  constructor := A.constructor

/-- Every evaluation respects the discipline. -/
theorem evaluates (A : AdmitsStates P D) (fuel : Nat) :
    Evaluates D anyValue (Interp.evaluate P fuel) :=
  A.admits.evaluates fuel

end AdmitsStates

end YastCore.Interp
