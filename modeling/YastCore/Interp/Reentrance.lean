import YastCore.Interp.AdmitsStates

/-!
# Activations of call nodes

A call node holds one call object for all its activations. An activation resets it, evaluates the
arguments, attaches them and calls; a nested activation of the same node may use the object in
between. A `YEFunction` keeps the function in it, a `YEFunctionPointer` replaces the object.
-/

namespace YastCore.Interp

open Discipline

/-- The number of arguments of a call node. -/
def Program.argCount (P : Program) (node : CodePtr) : Nat :=
  match P.code node with
  | some (.yeFunction _ parameters) => parameters.length
  | some (.yeFunctionPointer _ parameters) => parameters.length
  | _ => 0

/-- The call object has the slots of its function, the ones past the arguments of the node empty. -/
structure Shaped (P : Program) (node : CodePtr) (call : FunctionCall) : Prop where
  length : call.parameters.length = P.parameterCount call.sentry
  empty : call.parameters.drop (P.argCount node) =
    List.replicate (P.parameterCount call.sentry - P.argCount node) .null
  designated : ∀ entry parameters, P.code node = some (.yeFunction entry parameters) →
    P.createFunctionCall entry = some call.sentry

/-- No activation of a pointer call begins with another function while one of the same node is
evaluating its arguments. -/
def NoClash (P : Program) (trace : List Event) : Prop :=
  ∀ node entry parameters, P.code node = some (.yeFunctionPointer entry parameters) →
    ∀ f pending, Event.begins node f pending ∈ trace → ∀ f', (node, f') ∈ pending → f' = f

/-- The call is that of the function designated at the beginning, with the values computed. -/
structure CallRight (P : Program) (node : CodePtr) (f : EntryRef) (computed : List YCPValue)
    (call : FunctionCall) : Prop where
  sentry : call.sentry = f
  parameters : call.parameters =
    computed ++ List.replicate (P.parameterCount f - computed.length) .null
  designated : ∀ entry parameters, P.code node = some (.yeFunction entry parameters) →
    P.createFunctionCall entry = some f

def CallsRight (P : Program) (trace : List Event) : Prop :=
  ∀ node f computed call, Event.calls node f computed call ∈ trace →
    CallRight P node f computed call

/-- The activations under way find the call object of their function. -/
def PendingHeld (s : State) : Prop :=
  ∀ node f, (node, f) ∈ s.pending → ∃ call, s.functioncall node = some call ∧ call.sentry = f

structure Reentrant (P : Program) (s : State) : Prop where
  shaped : ∀ node call, s.functioncall node = some call → Shaped P node call
  pending : NoClash P s.trace → PendingHeld s
  calls : NoClash P s.trace → CallsRight P s.trace

structure SamePending (s s' : State) : Prop where
  pending : s'.pending = s.pending
  trace : ∀ event ∈ s.trace, event ∈ s'.trace

def callDiscipline (P : Program) : Discipline State where
  inv := Reentrant P
  le := SamePending
  halted := fun s => NoClash P s.trace → CallsRight P s.trace
  refl := fun _ => ⟨rfl, fun _ h => h⟩
  trans := fun h h' => ⟨h'.pending.trans h.pending, fun e he => h'.trace e (h.trace e he)⟩
  halted_of_inv := fun h => h.calls

section Calls

variable {P : Program} {s : State} {fuel : Nat} {evaluate : Evaluator}

lemma NoClash.mono {trace trace' : List Event} (h : NoClash P trace')
    (hsub : ∀ event ∈ trace, event ∈ trace') : NoClash P trace :=
  fun node entry parameters hnode f pending hmem => h node entry parameters hnode f pending
    (hsub _ hmem)

lemma NoClash.of_cons {event : Event} {trace : List Event} (h : NoClash P (event :: trace)) :
    NoClash P trace :=
  h.mono fun _ => List.mem_cons_of_mem _

lemma CallsRight.cons {event : Event} {trace : List Event} (h : CallsRight P trace)
    (hevent : ∀ node f computed call, event = .calls node f computed call →
      CallRight P node f computed call) : CallsRight P (event :: trace) := by
  intro node f computed call hmem
  rcases List.mem_cons.mp hmem with heq | hmem
  · exact hevent node f computed call heq.symm
  · exact h node f computed call hmem

/-- A step that leaves the calls alone. -/
lemma Reentrant.of_same (hs : Reentrant P s) {s' : State} (hpending : s'.pending = s.pending)
    (hcalls : s'.functioncall = s.functioncall) (htrace : s'.trace = s.trace) : Reentrant P s' where
  shaped := by
    rw [hcalls]
    exact hs.shaped
  pending := by
    rw [htrace]
    intro hclash
    unfold PendingHeld
    rw [hpending, hcalls]
    exact hs.pending hclash
  calls := by
    rw [htrace]
    exact hs.calls

/-- A step that only observes something other than calls. -/
lemma Reentrant.observe (hs : Reentrant P s) {event : Event}
    (hevent : ∀ node f computed call, event ≠ .calls node f computed call) {s' : State}
    (hpending : s'.pending = s.pending) (hcalls : s'.functioncall = s.functioncall)
    (htrace : s'.trace = event :: s.trace) : Reentrant P s' where
  shaped := by
    rw [hcalls]
    exact hs.shaped
  pending := by
    rw [htrace]
    intro hclash
    unfold PendingHeld
    rw [hpending, hcalls]
    exact hs.pending hclash.of_cons
  calls := by
    rw [htrace]
    intro hclash
    refine (hs.calls hclash.of_cons).cons ?_
    intro node f computed call heq
    exact absurd heq (hevent node f computed call)

lemma freeValues_calls : FreeValues (callDiscipline P) :=
  fun _ _ hs => ⟨hs.of_same rfl rfl rfl, rfl, fun _ h => h⟩

lemma freeStacks_calls : FreeStacks (callDiscipline P) :=
  fun _ _ hs => ⟨hs.of_same rfl rfl rfl, rfl, fun _ h => h⟩

/-! ### Call objects -/

lemma shaped_fresh {node : CodePtr} {f : EntryRef}
    (hdesignated : ∀ entry parameters, P.code node = some (.yeFunction entry parameters) →
      P.createFunctionCall entry = some f) : Shaped P node (.fresh P f) where
  length := List.length_replicate
  empty := List.drop_replicate
  designated := hdesignated

/-- The arguments fill the slots from a position on, or one of them is out of bounds. -/
lemma attachParameters_eq {call call' : FunctionCall} {pos : Nat} {args : List YCPValue}
    (hlength : call.parameters.length = P.parameterCount call.sentry)
    (hpos : pos ≤ P.parameterCount call.sentry)
    (h : attachParameters P call pos args = some call') :
    call' = { call with
        parameters := call.parameters.take pos ++ args ++ call.parameters.drop (pos + args.length) } ∧
      pos + args.length ≤ P.parameterCount call.sentry := by
  induction args generalizing call pos with
  | nil =>
    cases h
    simp [hpos]
  | cons arg args ih =>
    unfold attachParameters at h
    rw [if_neg (by omega)] at h
    split at h
    next hlt =>
      obtain ⟨heq, hle⟩ := ih (by simpa using hlength) (by simp only; omega) h
      refine ⟨?_, by simp only [List.length_cons]; simp only at hle; omega⟩
      rw [heq]
      have htake : (call.parameters.set pos arg).take (pos + 1) = call.parameters.take pos ++ [arg] := by
        rw [List.take_add_one, List.take_set_of_le (Nat.le_refl pos)]
        simp [hlt]
      have hdrop : (call.parameters.set pos arg).drop (pos + 1 + args.length) =
          call.parameters.drop (pos + (arg :: args).length) := by
        rw [List.drop_set_of_lt (by omega), List.length_cons]
        congr 1
        omega
      simp only [htake, hdrop]
      simp
    · cases h

/-- A call object with the arguments attached. -/
lemma Shaped.attach {node : CodePtr} {call call' : FunctionCall} {args : List YCPValue}
    (hcall : Shaped P node call) (hargs : args.length = P.argCount node)
    (h : attachParameters P call 0 args = some call') :
    Shaped P node call' ∧ call'.sentry = call.sentry ∧ call'.parameters =
      args ++ List.replicate (P.parameterCount call.sentry - args.length) .null := by
  obtain ⟨heq, hle⟩ := attachParameters_eq hcall.length (Nat.zero_le _) h
  have hempty : call.parameters.drop args.length =
      List.replicate (P.parameterCount call.sentry - args.length) .null := by
    rw [hargs]
    exact hcall.empty
  have hparameters : call'.parameters =
      args ++ List.replicate (P.parameterCount call.sentry - args.length) .null := by
    rw [heq]
    simp [hempty]
  have hsentry : call'.sentry = call.sentry := by rw [heq]
  refine ⟨⟨?_, ?_, ?_⟩, hsentry, hparameters⟩
  · rw [hparameters, hsentry, List.length_append, List.length_replicate]
    omega
  · rw [hparameters, hsentry, ← hargs]
    simp
  · rw [hsentry]
    exact hcall.designated

/-- A call object put where all activations under way agree with it. -/
lemma Reentrant.hold (hs : Reentrant P s) {node : CodePtr} {call : FunctionCall}
    (hcall : Shaped P node call)
    (hheld : NoClash P s.trace → ∀ f, (node, f) ∈ s.pending → call.sentry = f) :
    Reentrant P { s with functioncall := Function.update s.functioncall node (some call) } where
  shaped := by
    intro node' call' h
    by_cases hnode : node' = node
    · subst hnode
      simp only [Function.update_self, Option.some.injEq] at h
      rw [← h]
      exact hcall
    · simp only [Function.update_of_ne hnode] at h
      exact hs.shaped node' call' h
  pending := by
    intro hclash node' f hmem
    by_cases hnode : node' = node
    · subst hnode
      exact ⟨call, by simp, hheld hclash f hmem⟩
    · obtain ⟨call', hcall', hsentry⟩ := hs.pending hclash node' f hmem
      exact ⟨call', by simpa [Function.update_of_ne hnode] using hcall', hsentry⟩
  calls := hs.calls

/-! ### Activations -/

lemma evaluateParameters_length {args result : List YCPValue} {ps : List CodePtr} {s s' : State}
    (h : evaluateParameters evaluate args ps s = .ok (some result) s') :
    result.length = args.length + ps.length := by
  induction ps generalizing args s with
  | nil =>
    cases h
    simp
  | cons p ps ih =>
    obtain ⟨value, s₁, -, h⟩ := EState.bind_ok_iff.mp h
    split at h
    · cases h
    · rw [ih h]
      simp
      omega

/-- The state in which an activation starts with its arguments. -/
def begun (node : CodePtr) (f : EntryRef) (s : State) : State :=
  { s with trace := .begins node f s.pending :: s.trace, pending := (node, f) :: s.pending }

lemma reentrant_begun {node : CodePtr} {f : EntryRef}
    (hshaped : ∀ node call, s.functioncall node = some call → Shaped P node call)
    (hcall : ∃ call, s.functioncall node = some call ∧ call.sentry = f)
    (hready : NoClash P (.begins node f s.pending :: s.trace) → PendingHeld s ∧ CallsRight P s.trace) :
    Reentrant P (begun node f s) where
  shaped := hshaped
  pending := by
    intro hclash node' f' hmem
    rcases List.mem_cons.mp hmem with heq | hmem
    · cases heq
      exact hcall
    · exact (hready hclash).1 node' f' hmem
  calls := by
    intro hclash
    refine (hready hclash).2.cons ?_
    intro node' f' computed call heq
    cases heq

/-- The arguments are attached to a call object of the function the activation began with. -/
lemma attachArgs_runs (hs : Reentrant P s) {node : CodePtr} {f : EntryRef} {args : List YCPValue}
    (hcount : args.length = P.argCount node)
    (hcall : NoClash P s.trace → ∃ call, s.functioncall node = some call ∧ call.sentry = f) :
    (callDiscipline P).Runs s (attachArgs P node args) fun s' _ => NoClash P s'.trace →
      ∃ call, s'.functioncall node = some call ∧ CallRight P node f args call := by
  refine runs_get ?_
  split
  · exact runs_throw hs
  next call hnode =>
    have hshaped := hs.shaped node call hnode
    split
    · exact runs_throw hs
    next call' hattach =>
      obtain ⟨hshaped', hsentry, hparameters⟩ := hshaped.attach hcount hattach
      have hheld (hclash : NoClash P s.trace) (f' : EntryRef) (hmem : (node, f') ∈ s.pending) :
          call'.sentry = f' := by
        obtain ⟨call'', hcall'', hsentry'⟩ := hs.pending hclash node f' hmem
        rw [hnode] at hcall''
        cases hcall''
        rw [hsentry, hsentry']
      refine ⟨hs.hold hshaped' hheld, ⟨rfl, fun _ h => h⟩, fun hclash => ?_⟩
      obtain ⟨call'', hcall'', hf⟩ := hcall hclash
      rw [hnode] at hcall''
      cases hcall''
      refine ⟨call', by simp, ?_, ?_, ?_⟩
      · rw [hsentry, hf]
      · rw [hparameters, hf]
      · rw [← hf, ← hsentry]
        exact hshaped'.designated

/-- The activation ends with the call object of its function, its arguments attached. -/
lemma prepareCall_runs (h : Evaluates (callDiscipline P) anyValue evaluate) {node : CodePtr}
    {f : EntryRef} {parameters : List CodePtr} (hcount : parameters.length = P.argCount node)
    (hshaped : ∀ node call, s.functioncall node = some call → Shaped P node call)
    (hcall : ∃ call, s.functioncall node = some call ∧ call.sentry = f)
    (hready : NoClash P (.begins node f s.pending :: s.trace) → PendingHeld s ∧ CallsRight P s.trace) :
    (callDiscipline P).Runs s (prepareCall P evaluate node f parameters) fun s' r =>
      ∀ args, r = some args → NoClash P s'.trace →
        ∃ call, s'.functioncall node = some call ∧ CallRight P node f args call := by
  have hbegun := reentrant_begun hshaped hcall hready
  have hrun := freeValues_calls.admits.evaluateParameters_runs h parameters hbegun (List.forall_mem_nil _)
  cases hresult : evaluateParameters evaluate [] parameters (begun node f s) with
  | error e s' =>
    have heq := prepareCall_of_error (P := P) hresult
    refine runs_of (fun _ _ hok => ?_) fun e' s'' herror => ?_
    · rw [heq] at hok
      cases hok
    · rw [heq] at herror
      cases herror
      exact hrun.of_error hresult
  | ok r s₂ =>
    obtain ⟨hs₂, hle, -⟩ := hrun.of_ok hresult
    have hpending : s₂.pending = (node, f) :: s.pending := hle.pending
    have hended : Reentrant P { s₂ with pending := s₂.pending.tail } := by
      refine ⟨hs₂.shaped, fun hclash node' f' hmem => ?_, hs₂.calls⟩
      exact hs₂.pending hclash node' f' (List.mem_of_mem_tail hmem)
    have hsame : SamePending s { s₂ with pending := s₂.pending.tail } := by
      refine ⟨?_, fun event hmem => hle.trace event (List.mem_cons_of_mem _ hmem)⟩
      change s₂.pending.tail = s.pending
      rw [hpending]
      rfl
    cases r with
    | none => exact runs_reach (prepareCall_of_none hresult) hsame (runs_pure hended (by simp))
    | some args =>
      refine runs_reach (prepareCall_of_some hresult) hsame ?_
      have hlength : args.length = P.argCount node := by
        rw [evaluateParameters_length hresult, ← hcount]
        simp
      have hheld : NoClash P s₂.trace → ∃ call, s₂.functioncall node = some call ∧
          call.sentry = f := by
        intro hclash
        refine hs₂.pending hclash node f ?_
        rw [hpending]
        exact List.mem_cons_self
      refine runs_bind (attachArgs_runs hended hlength hheld) fun _ s₃ hs₃ _ hright => ?_
      refine runs_pure hs₃ fun args' hargs' => ?_
      cases hargs'
      exact hright

lemma takeCall_runs (hs : Reentrant P s) {node : CodePtr} {f : EntryRef} {args : List YCPValue}
    (hright : NoClash P s.trace →
      ∃ call, s.functioncall node = some call ∧ CallRight P node f args call) :
    (callDiscipline P).Runs s (takeCall node f args) fun _ _ => True := by
  refine runs_get ?_
  split
  · exact runs_throw hs
  next call hnode =>
    refine runs_modify ⟨rfl, fun _ => List.mem_cons_of_mem _⟩ (runs_pure ?_ trivial)
    refine ⟨hs.shaped, fun hclash => hs.pending hclash.of_cons, fun hclash => ?_⟩
    refine (hs.calls hclash.of_cons).cons ?_
    intro node' f' computed call' heq
    cases heq
    obtain ⟨call'', hcall'', hcallRight⟩ := hright hclash.of_cons
    rw [hnode] at hcall''
    cases hcall''
    exact hcallRight

lemma evaluateCall_calls (h : Evaluates (callDiscipline P) anyValue evaluate)
    (call : FunctionCall) : (callDiscipline P).Keeps (evaluateCall P fuel evaluate call) anyValue := by
  intro s hs
  refine runs_modify ⟨rfl, fun _ => List.mem_cons_of_mem _⟩ ?_
  have hentered : Reentrant P { s with
      depth := s.depth + 1, trace := .enters (s.depth + 1) s.unframed :: s.trace } :=
    hs.observe (by simp) rfl rfl rfl
  refine runs_bind (runFunction_keeps freeValues_calls freeStacks_calls h call _ hentered) ?_
  intro v s₁ hs₁ _ _
  exact runs_modify ⟨rfl, fun _ h => h⟩ (runs_pure (hs₁.of_same rfl rfl rfl) trivial)

lemma unframedCall_calls (h : Evaluates (callDiscipline P) anyValue evaluate)
    (call : FunctionCall) : (callDiscipline P).Keeps (unframedCall P fuel evaluate call) anyValue := by
  intro s hs
  refine runs_modify ⟨rfl, fun _ h => h⟩ ?_
  refine runs_bind (evaluateCall_calls h call _ (hs.of_same rfl rfl rfl)) fun v s₁ hs₁ _ _ => ?_
  exact runs_modify ⟨rfl, fun _ h => h⟩ (runs_pure (hs₁.of_same rfl rfl rfl) trivial)

lemma framedCall_calls (h : Evaluates (callDiscipline P) anyValue evaluate) (node : CodePtr)
    (args : List YCPValue) (call : FunctionCall) :
    (callDiscipline P).Keeps (framedCall P fuel evaluate node args call) anyValue := by
  intro s hs
  refine runs_modify ⟨rfl, fun _ h => h⟩ ?_
  refine runs_bind (evaluateCall_calls h call _ (hs.of_same rfl rfl rfl)) fun v s₁ hs₁ _ _ => ?_
  exact runs_modify ⟨rfl, fun _ h => h⟩ (runs_pure (hs₁.of_same rfl rfl rfl) trivial)

/-- A direct call finds its function in the object, whatever activation left it there. -/
lemma directCall_runs (hs : Reentrant P s) {node : CodePtr} {entry : EntryRef}
    {parameters : List CodePtr} (hnode : P.code node = some (.yeFunction entry parameters)) :
    (callDiscipline P).Runs s (directCall P node entry) fun s' r => ∀ f, r = some f →
      ∃ call, s'.functioncall node = some call ∧ call.sentry = f := by
  have hdesignated {f : EntryRef} (hf : P.createFunctionCall entry = some f) (entry' : EntryRef)
      (parameters' : List CodePtr) (hnode' : P.code node = some (.yeFunction entry' parameters')) :
      P.createFunctionCall entry' = some f := by
    rw [hnode] at hnode'
    cases hnode'
    exact hf
  refine runs_get ?_
  split
  next hnone =>
    split
    · exact runs_pure hs (by simp)
    next f hf =>
      refine runs_modify ⟨rfl, fun _ h => h⟩ (runs_pure ?_ ?_)
      · refine hs.hold (shaped_fresh (hdesignated hf)) fun hclash f' hmem => ?_
        obtain ⟨call, hcall, -⟩ := hs.pending hclash node f' hmem
        rw [hnone] at hcall
        cases hcall
      · rintro f' ⟨⟩
        exact ⟨.fresh P f, by simp, rfl⟩
  next call hcall =>
    refine runs_modify ⟨rfl, fun _ h => h⟩ (runs_pure ?_ ?_)
    · have hf := (hs.shaped node call hcall).designated entry parameters hnode
      refine hs.hold (shaped_fresh (hdesignated hf)) fun hclash f' hmem => ?_
      obtain ⟨call', hcall', hsentry⟩ := hs.pending hclash node f' hmem
      rw [hcall] at hcall'
      cases hcall'
      exact hsentry
    · rintro f' ⟨⟩
      exact ⟨.fresh P call.sentry, by simp, rfl⟩

lemma yeFunction_calls (h : Evaluates (callDiscipline P) anyValue evaluate) {node : CodePtr}
    {entry : EntryRef} {parameters : List CodePtr}
    (hnode : P.code node = some (.yeFunction entry parameters)) :
    (callDiscipline P).Keeps (yeFunction P fuel evaluate false node entry parameters) anyValue := by
  intro s hs
  refine runs_bind (directCall_runs hs hnode) fun r s₁ hs₁ _ hr => ?_
  split
  · exact runs_pure hs₁ trivial
  next f =>
    have hcount : parameters.length = P.argCount node := by
      unfold Program.argCount
      rw [hnode]
    refine runs_bind (prepareCall_runs h hcount hs₁.shaped (hr f rfl)
      fun hclash => ⟨hs₁.pending hclash.of_cons, hs₁.calls hclash.of_cons⟩) ?_
    intro r' s₂ hs₂ _ hright
    split
    · exact runs_pure hs₂ trivial
    next args =>
      refine runs_get ?_
      split
      · exact runs_pure hs₂ trivial
      · refine runs_bind (takeCall_runs hs₂ (hright args rfl)) fun call s₃ hs₃ _ _ => ?_
        exact framedCall_calls h node args call s₃ hs₃

/-- A pointer call replaces the object of its node: the activations under way still find their
function there because none of them has another one. -/
lemma yeFunctionPointer_calls (h : Evaluates (callDiscipline P) anyValue evaluate) {node : CodePtr}
    {entry : EntryRef} {parameters : List CodePtr}
    (hnode : P.code node = some (.yeFunctionPointer entry parameters)) :
    (callDiscipline P).Keeps (yeFunctionPointer P fuel evaluate false node entry parameters)
      anyValue := by
  intro s hs
  refine runs_bind (freeValues_calls.admits.entryValue_keeps entry s hs) fun value s₁ hs₁ _ _ => ?_
  split
  · split
    · exact runs_pure hs₁ trivial
    next f _ =>
      have hcount : parameters.length = P.argCount node := by
        unfold Program.argCount
        rw [hnode]
      have hdirect (entry' : EntryRef) (parameters' : List CodePtr)
          (hnode' : P.code node = some (.yeFunction entry' parameters')) :
          P.createFunctionCall entry' = some f := by
        rw [hnode] at hnode'
        cases hnode'
      have hshaped (node' : CodePtr) (call : FunctionCall)
          (hcall : Function.update s₁.functioncall node (some (.fresh P f)) node' = some call) :
          Shaped P node' call := by
        by_cases heq : node' = node
        · subst heq
          rw [Function.update_self] at hcall
          cases hcall
          exact shaped_fresh hdirect
        · rw [Function.update_of_ne heq] at hcall
          exact hs₁.shaped node' call hcall
      have hready (hclash : NoClash P (.begins node f s₁.pending :: s₁.trace)) :
          PendingHeld { s₁ with
            functioncall := Function.update s₁.functioncall node (some (.fresh P f)) } := by
        intro node' f' hmem
        by_cases heq : node' = node
        · subst heq
          have hsame : f' = f :=
            hclash node' entry parameters hnode f s₁.pending List.mem_cons_self f' hmem
          exact ⟨.fresh P f, by simp, hsame.symm⟩
        · obtain ⟨call, hcall, hsentry⟩ := hs₁.pending hclash.of_cons node' f' hmem
          exact ⟨call, by simpa [Function.update_of_ne heq] using hcall, hsentry⟩
      refine runs_modify ⟨rfl, fun _ h => h⟩ ?_
      refine runs_bind (prepareCall_runs h hcount hshaped ⟨.fresh P f, by simp, rfl⟩
        fun hclash => ⟨hready hclash, hs₁.calls hclash.of_cons⟩) ?_
      intro r s₂ hs₂ _ hright
      split
      · exact runs_pure hs₂ trivial
      next args =>
        refine runs_bind (takeCall_runs hs₂ (hright args rfl)) fun call s₃ hs₃ _ _ => ?_
        exact unframedCall_calls h call s₃ hs₃
  · exact runs_pure hs₁ trivial

end Calls

/-! ### All runs -/

lemma admits_calls (P : Program) : AdmitsStates P (callDiscipline P) where
  value := freeValues_calls
  running := fun hs => ⟨hs.of_same rfl rfl rfl, rfl, fun _ h => h⟩
  initialized := fun hs => ⟨hs.of_same rfl rfl rfl, rfl, fun _ h => h⟩
  world := fun hs => ⟨hs.of_same rfl rfl rfl, rfl, fun _ h => h⟩
  mapEntry := fun hs => ⟨hs.observe (by simp) rfl rfl rfl, rfl, fun _ => List.mem_cons_of_mem _⟩
  builtin := fun hs => ⟨hs.observe (by simp) rfl rfl rfl, rfl, fun _ => List.mem_cons_of_mem _⟩
  pushed := (freeStacks_calls.admits freeValues_calls).withPushed_keeps
  pushedModule := fun _ _ => (freeStacks_calls.admits freeValues_calls).pushAll_keeps _
  function := fun h hnode => yeFunction_calls h hnode
  functionPointer := fun h hnode => yeFunctionPointer_calls h hnode
  constructor := fun h => unframedCall_calls h _

/-- No call is under way, and the call objects are as they were created. -/
structure Loaded (P : Program) (s : State) : Prop where
  pending : s.pending = []
  trace : s.trace = []
  shaped : ∀ node call, s.functioncall node = some call → Shaped P node call

lemma Loaded.reentrant {P : Program} {s : State} (hs : Loaded P s) : Reentrant P s where
  shaped := hs.shaped
  pending := by
    intro _ node f hmem
    rw [hs.pending] at hmem
    cases hmem
  calls := by
    intro _ node f computed call hmem
    rw [hs.trace] at hmem
    cases hmem

/-- In every run, up to every point of it, each activation of a call node has called the function
that it designated when it began with the values it computed, provided that no activation of a
pointer call began with another function than one of the same node that was evaluating its
arguments. -/
theorem calls_right (P : Program) (fuel : Nat) (cse : Bool) (ptr : CodePtr) (s : State)
    (hs : Loaded P s) (hclash : NoClash P (finalState (evaluate P fuel cse ptr s)).trace) :
    CallsRight P (finalState (evaluate P fuel cse ptr s)).trace := by
  have hrun := (admits_calls P).evaluates fuel cse ptr s hs.reentrant
  cases hresult : evaluate P fuel cse ptr s with
  | ok v s' =>
    rw [hresult] at hclash
    exact (hrun.of_ok hresult).1.calls hclash
  | error e s' =>
    rw [hresult] at hclash
    exact hrun.of_error hresult hclash

/-! ### A pointer that changes while the arguments are evaluated -/

/-- A symbol of the example, all in one namespace. -/
def symbolAt (position : Nat) : EntryRef := ⟨.block 0, position⟩

/-- The functions `f (any x) {}` and `g (any x) {}`, a pointer `p`, a flag `first`, the call `p (h ())`
at the address 1 and
`any h () { if (first) { first = false; p = target; p (h ()); } return 1; }`, where the last call is
the one at the address 1. The symbols are `f`, `g`, `h`, `p`, `first` in this order. -/
def pointerCalls (target : EntryRef) : Program :=
  .ofNodes [.yeFunctionPointer (symbolAt 3) [2], .yeFunction (symbolAt 2) [],
    .yeBlock ⟨20, .ofBuffer [], .b_definition, 0⟩ [] ⟨symbolAt 0, 0, []⟩ [4, 9],
    .ysIf 0 5 6 0, .yeVariable (symbolAt 4),
    .yeBlock ⟨24, .ofBuffer [], .b_statement, 0⟩ [] ⟨symbolAt 0, 0, []⟩ [7, 8, 10],
    .ysAssign 0 (symbolAt 4) 11, .ysAssign 0 (symbolAt 3) 12, .ysReturn 0 13, .ysExpression 0 1,
    .yConst .ycBoolean (.boolean false), .yeReference target, .yConst .ycInteger (.integer 1),
    .yeBlock ⟨21, .ofBuffer [], .b_unknown, 1⟩ [] ⟨symbolAt 0, 0, []⟩ [],
    .yeBlock ⟨22, .ofBuffer [], .b_unknown, 1⟩ [] ⟨symbolAt 0, 0, []⟩ [],
    .yeBlock ⟨23, .ofBuffer [], .b_definition, 0⟩ [] ⟨symbolAt 0, 0, []⟩ [],
    .ycFunction 14 16, .ycFunction 15 16, .ycFunction 0 3]
    (fun e =>
      if e = symbolAt 0 then ⟨.c_function, .functionT anyType [anyType] unqualified, 17⟩
      else if e = symbolAt 1 then ⟨.c_function, .functionT anyType [anyType] unqualified, 18⟩
      else if e = symbolAt 2 then ⟨.c_function, .functionT anyType [] unqualified, 19⟩
      else ⟨.c_variable, anyType, 0⟩) 100
where
  anyType : YType := .base .anyT unqualified

/-- The pointer `p` points to `f`, and `first` is true. -/
def pointerStart : State :=
  { State.start with value := fun e =>
      if e = symbolAt 3 then .reference (symbolAt 0)
      else if e = symbolAt 4 then .boolean true
      else .null }

lemma loaded_pointerStart (P : Program) : Loaded P pointerStart :=
  ⟨rfl, rfl, fun _ _ h => nomatch h⟩

/-- The events of `p (h ())` when the nested call is also one of `f`. -/
def nestedEvents : List Event :=
  [.enters 1 1, .calls 1 (symbolAt 0) [.integer 1] ⟨symbolAt 0, [.integer 1]⟩,
    .enters 2 1, .calls 1 (symbolAt 0) [.integer 1] ⟨symbolAt 0, [.integer 1]⟩,
    .enters 2 0, .calls 2 (symbolAt 2) [] ⟨symbolAt 2, []⟩,
    .begins 2 (symbolAt 2) [(1, symbolAt 0), (1, symbolAt 0)],
    .begins 1 (symbolAt 0) [(1, symbolAt 0)],
    .enters 1 0, .calls 2 (symbolAt 2) [] ⟨symbolAt 2, []⟩, .begins 2 (symbolAt 2) [(1, symbolAt 0)],
    .begins 1 (symbolAt 0) []]

/-- The node is entered again by its own argument, with the same function. -/
theorem calls_right_nested :
    CallsRight (pointerCalls (symbolAt 0))
      (finalState (evaluate (pointerCalls (symbolAt 0)) 20 false 1 pointerStart)).trace := by
  have htrace : (finalState (evaluate (pointerCalls (symbolAt 0)) 20 false 1 pointerStart)).trace =
      nestedEvents := rfl
  refine calls_right (pointerCalls (symbolAt 0)) 20 false 1 pointerStart (loaded_pointerStart _) ?_
  rw [htrace]
  intro node entry parameters _ f pending hmem f' hpending
  simp only [nestedEvents, List.mem_cons, reduceCtorEq, Event.begins.injEq, List.not_mem_nil, or_false,
    false_or] at hmem
  rcases hmem with ⟨rfl, rfl, rfl⟩ | ⟨rfl, rfl, rfl⟩ | ⟨rfl, rfl, rfl⟩ | ⟨rfl, rfl, rfl⟩
  all_goals simpa using hpending

/-- The node is entered again by its own argument, with another function: the outer activation,
which designated `f`, calls `g`. -/
theorem calls_other_function :
    Event.calls 1 (symbolAt 0) [.integer 1] ⟨symbolAt 1, [.integer 1]⟩ ∈
        (finalState (evaluate (pointerCalls (symbolAt 1)) 20 false 1 pointerStart)).trace ∧
      symbolAt 1 ≠ symbolAt 0 := by
  have hcall : (finalState (evaluate (pointerCalls (symbolAt 1)) 20 false 1 pointerStart)).trace[1]? =
      some (.calls 1 (symbolAt 0) [.integer 1] ⟨symbolAt 1, [.integer 1]⟩) := rfl
  exact ⟨List.mem_of_getElem? hcall, by decide⟩

end YastCore.Interp
