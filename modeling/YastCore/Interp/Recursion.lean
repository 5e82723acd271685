import YastCore.Interp.AdmitsStates

/-!
# The recursion limit

`ExecutionEnvironment::endlessRecursion` compares the number of frames with the limit, but only a
`YEFunction` asks it, and only a `YEFunction` pushes a frame. What is bounded is the number of
activations that were entered with a frame.
-/

namespace YastCore.Interp

open Discipline

/-- Every entry into `evaluateCall` is within the limit, not counting the activations without a
frame. -/
def EntriesWithin (limit : Nat) (trace : List Event) : Prop :=
  ∀ depth unframed, Event.enters depth unframed ∈ trace → depth ≤ limit + unframed

/-- The frames account for all activations but the `unframed` ones. -/
structure Framed (P : Program) (s : State) : Prop where
  depth : s.depth = s.backtrace.length + s.unframed
  frames : s.backtrace.length ≤ P.recursionLimit
  entries : EntriesWithin P.recursionLimit s.trace

structure SameFrames (s s' : State) : Prop where
  backtrace : s'.backtrace = s.backtrace
  depth : s'.depth = s.depth
  unframed : s'.unframed = s.unframed

/-- A part of a run leaves the frames as they were. -/
def frameDiscipline (P : Program) : Discipline State where
  inv := Framed P
  le := SameFrames
  halted := fun s => EntriesWithin P.recursionLimit s.trace
  refl := fun _ => ⟨rfl, rfl, rfl⟩
  trans := fun h h' => ⟨h'.backtrace.trans h.backtrace, h'.depth.trans h.depth,
    h'.unframed.trans h.unframed⟩
  halted_of_inv := fun h => h.entries

section Calls

variable {P : Program} {s : State} {fuel : Nat} {evaluate : Evaluator}

lemma EntriesWithin.cons {limit : Nat} {trace : List Event} (h : EntriesWithin limit trace)
    {event : Event} (hevent : ∀ d u, event = .enters d u → d ≤ limit + u) :
    EntriesWithin limit (event :: trace) := by
  intro d u hmem
  rcases List.mem_cons.mp hmem with heq | hmem
  · exact hevent d u heq.symm
  · exact h d u hmem

/-- A step that changes nothing but the observations, and observes no entry. -/
lemma Framed.of_same (hs : Framed P s) {s' : State} (h : SameFrames s s')
    (htrace : EntriesWithin P.recursionLimit s'.trace) : Framed P s' where
  depth := by
    rw [h.depth, h.backtrace, h.unframed]
    exact hs.depth
  frames := by
    rw [h.backtrace]
    exact hs.frames
  entries := htrace

/-! ### The calls -/

lemma freeValues_frames : FreeValues (frameDiscipline P) := fun _ _ hs =>
  have hsame := ⟨rfl, rfl, rfl⟩
  ⟨hs.of_same hsame hs.entries, hsame⟩

lemma freeStacks_frames : FreeStacks (frameDiscipline P) := fun _ _ hs =>
  have hsame := ⟨rfl, rfl, rfl⟩
  ⟨hs.of_same hsame hs.entries, hsame⟩

/-- The state in which the body of `evaluateCall` starts. -/
def entered (s : State) : State :=
  { s with depth := s.depth + 1, trace := .enters (s.depth + 1) s.unframed :: s.trace }

lemma evaluateCall_apply (call : FunctionCall) :
    evaluateCall P fuel evaluate call s =
      (do
        let value ← runFunction P fuel evaluate call
        modify fun s => { s with depth := s.depth - 1 }
        return value : M YCPValue) (entered s) :=
  rfl

/-- What is left of the frames after a call that was entered with its frame pushed, or counted as
one without: all is as before it was entered. -/
def CameBack (P : Program) (s : State) : EStateM.Result Fault State YCPValue → Prop
  | .ok _ s' => SameFrames s s' ∧ EntriesWithin P.recursionLimit s'.trace
  | .error _ s' => EntriesWithin P.recursionLimit s'.trace

lemma evaluateCall_cameBack (h : Evaluates (frameDiscipline P) anyValue evaluate)
    (call : FunctionCall) (hdepth : s.depth + 1 = s.backtrace.length + s.unframed)
    (hframes : s.backtrace.length ≤ P.recursionLimit)
    (hentries : EntriesWithin P.recursionLimit s.trace) :
    CameBack P s (evaluateCall P fuel evaluate call s) := by
  have hentered : Framed P (entered s) := by
    refine ⟨hdepth, hframes, hentries.cons ?_⟩
    rintro d u ⟨⟩
    omega
  have hrun : (frameDiscipline P).Runs (entered s) (runFunction P fuel evaluate call) anyValue :=
    runFunction_keeps freeValues_frames freeStacks_frames h call _ hentered
  rw [evaluateCall_apply, EState.bind_apply]
  cases hresult : runFunction P fuel evaluate call (entered s) with
  | error e s' => exact hrun.of_error hresult
  | ok v s' =>
    obtain ⟨hinv, hle, -⟩ := hrun.of_ok hresult
    have hback : s'.depth = s.depth + 1 := hle.depth
    refine ⟨⟨hle.backtrace, ?_, hle.unframed⟩, hinv.entries⟩
    change s'.depth - 1 = s.depth
    omega

/-- A call between an opening that accounts for it and the closing that undoes the opening. -/
lemma evaluateCall_around (h : Evaluates (frameDiscipline P) anyValue evaluate)
    (call : FunctionCall) (opening closing : State → State) (hs : Framed P s)
    (hdepth : (opening s).depth + 1 = (opening s).backtrace.length + (opening s).unframed)
    (hframes : (opening s).backtrace.length ≤ P.recursionLimit)
    (htrace : (opening s).trace = s.trace)
    (hclose : ∀ s', SameFrames (opening s) s' →
      SameFrames s (closing s') ∧ (closing s').trace = s'.trace) :
    (frameDiscipline P).Runs s (do
      modify opening
      let value ← evaluateCall P fuel evaluate call
      modify closing
      return value : M YCPValue) anyValue := by
  have hcall : CameBack P (opening s) (evaluateCall P fuel evaluate call (opening s)) := by
    refine evaluateCall_cameBack h call hdepth hframes ?_
    rw [htrace]
    exact hs.entries
  have heq : (do
      modify opening
      let value ← evaluateCall P fuel evaluate call
      modify closing
      return value : M YCPValue) s = (do
      let value ← evaluateCall P fuel evaluate call
      modify closing
      return value : M YCPValue) (opening s) := rfl
  unfold Runs
  rw [heq, EState.bind_apply]
  cases hresult : evaluateCall P fuel evaluate call (opening s) with
  | error e s' =>
    rw [hresult] at hcall
    exact hcall
  | ok v s' =>
    rw [hresult] at hcall
    obtain ⟨hsame, hentries⟩ := hcall
    obtain ⟨hback, htrace'⟩ := hclose s' hsame
    refine ⟨hs.of_same hback ?_, hback, trivial⟩
    rw [htrace']
    exact hentries

/-- A call without a frame is counted while it is open. -/
lemma unframedCall_keeps (h : Evaluates (frameDiscipline P) anyValue evaluate)
    (call : FunctionCall) :
    (frameDiscipline P).Keeps (unframedCall P fuel evaluate call) anyValue := by
  intro s hs
  refine evaluateCall_around h call (fun s => { s with unframed := s.unframed + 1 })
    (fun s => { s with unframed := s.unframed - 1 }) hs ?_ hs.frames rfl fun s' hsame => ?_
  · have hdepth := hs.depth
    change s.depth + 1 = s.backtrace.length + (s.unframed + 1)
    omega
  · have hunframed : s'.unframed = s.unframed + 1 := hsame.unframed
    refine ⟨⟨hsame.backtrace, hsame.depth, ?_⟩, rfl⟩
    change s'.unframed - 1 = s.unframed
    omega

/-- A call with a frame finds room for it. -/
lemma framedCall_runs (h : Evaluates (frameDiscipline P) anyValue evaluate) (node : CodePtr)
    (args : List YCPValue) (call : FunctionCall) (hs : Framed P s)
    (hbelow : s.backtrace.length < P.recursionLimit) :
    (frameDiscipline P).Runs s (framedCall P fuel evaluate node args call) anyValue := by
  refine evaluateCall_around h call (fun s => { s with backtrace := (node, args) :: s.backtrace })
    (fun s => { s with backtrace := s.backtrace.tail }) hs ?_ hbelow rfl fun s' hsame => ?_
  · have hdepth := hs.depth
    change s.depth + 1 = (s.backtrace.length + 1) + s.unframed
    omega
  · have hbacktrace : s'.backtrace = (node, args) :: s.backtrace := hsame.backtrace
    refine ⟨⟨?_, hsame.depth, hsame.unframed⟩, rfl⟩
    change s'.backtrace.tail = s.backtrace
    rw [hbacktrace]
    rfl

lemma attachArgs_keeps (node : CodePtr) (args : List YCPValue) :
    (frameDiscipline P).Keeps (attachArgs P node args) fun _ _ => True := by
  intro s hs
  refine runs_get ?_
  split
  · exact runs_throw hs
  split
  · exact runs_throw hs
  · exact ⟨hs.of_same ⟨rfl, rfl, rfl⟩ hs.entries, ⟨rfl, rfl, rfl⟩, trivial⟩

lemma prepareCall_keeps (h : Evaluates (frameDiscipline P) anyValue evaluate) (node : CodePtr)
    (f : EntryRef) (parameters : List CodePtr) :
    (frameDiscipline P).Keeps (prepareCall P evaluate node f parameters) fun _ _ => True := by
  intro s hs
  refine runs_modify ⟨rfl, rfl, rfl⟩ ?_
  have hbegun : Framed P { s with
      trace := .begins node f s.pending :: s.trace, pending := (node, f) :: s.pending } :=
    hs.of_same ⟨rfl, rfl, rfl⟩ (hs.entries.cons (by simp))
  refine runs_bind (freeValues_frames.admits.evaluateParameters_runs h parameters hbegun
    (List.forall_mem_nil _)) fun args s₁ hs₁ _ _ => ?_
  refine runs_modify ⟨rfl, rfl, rfl⟩ ?_
  have hended : Framed P { s₁ with pending := s₁.pending.tail } :=
    hs₁.of_same ⟨rfl, rfl, rfl⟩ hs₁.entries
  split
  · exact runs_pure hended trivial
  · refine runs_bind (attachArgs_keeps node _ _ hended) fun _ s₂ hs₂ _ _ => ?_
    exact runs_pure hs₂ trivial

lemma directCall_keeps (node : CodePtr) (entry : EntryRef) :
    (frameDiscipline P).Keeps (directCall P node entry) fun _ _ => True := by
  intro s hs
  refine runs_get ?_
  split
  · split
    · exact runs_pure hs trivial
    · exact runs_modify ⟨rfl, rfl, rfl⟩ (runs_pure (hs.of_same ⟨rfl, rfl, rfl⟩ hs.entries) trivial)
  · exact runs_modify ⟨rfl, rfl, rfl⟩ (runs_pure (hs.of_same ⟨rfl, rfl, rfl⟩ hs.entries) trivial)

/-- A call object is taken as it is, or the run stops. -/
lemma takeCall_keeps (node : CodePtr) (f : EntryRef) (args : List YCPValue) :
    (frameDiscipline P).Keeps (takeCall node f args) fun _ _ => True := by
  intro s hs
  refine runs_get ?_
  split
  · exact runs_throw hs
  · refine runs_modify ⟨rfl, rfl, rfl⟩ ?_
    exact runs_pure (hs.of_same ⟨rfl, rfl, rfl⟩ (hs.entries.cons (by simp))) trivial

lemma yeFunction_keeps (h : Evaluates (frameDiscipline P) anyValue evaluate) (node : CodePtr)
    (entry : EntryRef) (parameters : List CodePtr) :
    (frameDiscipline P).Keeps (yeFunction P fuel evaluate false node entry parameters) anyValue := by
  intro s hs
  refine runs_bind (directCall_keeps node entry s hs) fun f s₁ hs₁ _ _ => ?_
  split
  · exact runs_pure hs₁ trivial
  next f =>
    refine runs_bind (prepareCall_keeps h node f parameters s₁ hs₁) fun args s₂ hs₂ _ _ => ?_
    split
    · exact runs_pure hs₂ trivial
    next args =>
      refine runs_get ?_
      split
      · exact runs_pure hs₂ trivial
      next hlimit =>
        have hbelow : s₂.backtrace.length < P.recursionLimit := by
          have hframes := hs₂.frames
          omega
        refine runs_bind (takeCall_keeps node f args s₂ hs₂) fun call s₃ hs₃ hle _ => ?_
        refine framedCall_runs h node args call hs₃ ?_
        rw [hle.backtrace]
        exact hbelow

lemma yeFunctionPointer_keeps (h : Evaluates (frameDiscipline P) anyValue evaluate)
    (node : CodePtr) (entry : EntryRef) (parameters : List CodePtr) :
    (frameDiscipline P).Keeps (yeFunctionPointer P fuel evaluate false node entry parameters)
      anyValue := by
  intro s hs
  refine runs_bind (freeValues_frames.admits.entryValue_keeps entry s hs) fun value s₁ hs₁ _ _ => ?_
  split
  · split
    · exact runs_pure hs₁ trivial
    next f _ =>
      refine runs_modify ⟨rfl, rfl, rfl⟩ ?_
      refine runs_bind (prepareCall_keeps h node f parameters _
        (hs₁.of_same ⟨rfl, rfl, rfl⟩ hs₁.entries)) fun args s₂ hs₂ _ _ => ?_
      split
      · exact runs_pure hs₂ trivial
      next args =>
        refine runs_bind (takeCall_keeps node f args s₂ hs₂) fun call s₃ hs₃ _ _ => ?_
        exact unframedCall_keeps h call s₃ hs₃
  · exact runs_pure hs₁ trivial

end Calls

/-! ### All runs -/

lemma admits_frames (P : Program) : AdmitsStates P (frameDiscipline P) where
  value := freeValues_frames
  running := fun hs => ⟨hs.of_same ⟨rfl, rfl, rfl⟩ hs.entries, rfl, rfl, rfl⟩
  initialized := fun hs => ⟨hs.of_same ⟨rfl, rfl, rfl⟩ hs.entries, rfl, rfl, rfl⟩
  world := fun hs => ⟨hs.of_same ⟨rfl, rfl, rfl⟩ hs.entries, rfl, rfl, rfl⟩
  mapEntry := fun hs => ⟨hs.of_same ⟨rfl, rfl, rfl⟩ (hs.entries.cons (by simp)), rfl, rfl, rfl⟩
  builtin := fun hs => ⟨hs.of_same ⟨rfl, rfl, rfl⟩ (hs.entries.cons (by simp)), rfl, rfl, rfl⟩
  pushed := (freeStacks_frames.admits freeValues_frames).withPushed_keeps
  pushedModule := fun _ _ => (freeStacks_frames.admits freeValues_frames).pushAll_keeps _
  function := fun h _ => yeFunction_keeps h _ _ _
  functionPointer := fun h _ => yeFunctionPointer_keeps h _ _ _
  constructor := fun h => unframedCall_keeps h _

lemma entriesWithin_evaluate {P : Program} {s : State} (hs : Framed P s) (fuel : Nat) (cse : Bool)
    (ptr : CodePtr) :
    EntriesWithin P.recursionLimit (finalState (evaluate P fuel cse ptr s)).trace := by
  have hrun := (admits_frames P).evaluates fuel cse ptr s hs
  cases hresult : evaluate P fuel cse ptr s with
  | ok v s' => exact (hrun.of_ok hresult).1.entries
  | error e s' => exact hrun.of_error hresult

/-- In every run, up to every point of it, the nested activations are at most the recursion limit
and one more, provided that at most one of those that are open was entered without a frame; and an
evaluation that comes back leaves the frames as they were. -/
theorem recursionLimit_bounds (P : Program) (fuel : Nat) (cse : Bool) (ptr : CodePtr) (s : State)
    (hs : Framed P s) :
    ((∀ depth unframed, Event.enters depth unframed ∈
        (finalState (evaluate P fuel cse ptr s)).trace → unframed ≤ 1) →
      ∀ depth unframed, Event.enters depth unframed ∈
        (finalState (evaluate P fuel cse ptr s)).trace → depth ≤ P.recursionLimit + 1) ∧
    ∀ v s', evaluate P fuel cse ptr s = .ok v s' → s'.backtrace = s.backtrace := by
  constructor
  · intro hone depth unframed hmem
    have hdepth := entriesWithin_evaluate hs fuel cse ptr depth unframed hmem
    have hunframed := hone depth unframed hmem
    omega
  · intro v s' hok
    have hrun := (admits_frames P).evaluates fuel cse ptr s hs
    exact (hrun.of_ok hok).2.1.backtrace

/-! ### Recursion without end -/

def fEntry : EntryRef := ⟨.block 0, 0⟩

def pEntry : EntryRef := ⟨.block 0, 1⟩

def anyFunction : YType := .functionT (.base .anyT unqualified) [] unqualified

/-- The function `any f () { call; }` and the variable `p`, for a call node of `f`. -/
def recursive (call : Node CodePtr) (limit : Nat) : Program :=
  .ofNodes [call, .ysExpression 1 1, .yeBlock ⟨1, .ofBuffer [], .b_definition, 0⟩ []
    ⟨fEntry, 0, []⟩ [2], .ycFunction 0 3]
    (fun e => if e = fEntry then ⟨.c_function, anyFunction, 4⟩ else ⟨.c_variable, anyFunction, 0⟩) limit

/-- The variable `p` points to `f`. -/
def pointing : State :=
  { State.start with value := fun e => if e = pEntry then .reference fEntry else .null }

lemma framed_pointing (P : Program) : Framed P pointing :=
  ⟨rfl, Nat.zero_le _, by simp [EntriesWithin, pointing, State.start]⟩

/-- What is observed of one direct call of `f`. -/
def directEvents : List Event := [.calls 1 fEntry [] ⟨fEntry, []⟩, .begins 1 fEntry []]

/-- With `f` calling itself directly, under a limit of two, three activations are nested at most. -/
theorem recursionLimit_bounds_direct :
    Framed (recursive (.yeFunction fEntry []) 2) pointing ∧
      ∀ depth unframed, Event.enters depth unframed ∈
        (finalState (evaluate (recursive (.yeFunction fEntry []) 2) 20 false 1 pointing)).trace →
          depth ≤ 3 := by
  have htrace : (finalState (evaluate (recursive (.yeFunction fEntry []) 2) 20 false 1
      pointing)).trace = .begins 1 fEntry [] :: .enters 2 0 :: directEvents ++
        .enters 1 0 :: directEvents := rfl
  refine ⟨framed_pointing _,
    (recursionLimit_bounds _ 20 false 1 pointing (framed_pointing _)).1 fun depth unframed hmem => ?_⟩
  rw [htrace] at hmem
  simp only [directEvents, List.cons_append, List.nil_append, List.mem_cons, reduceCtorEq,
    Event.enters.injEq, List.not_mem_nil, or_false, false_or] at hmem
  omega

/-- With `f` calling itself through `p`, under a limit of one, the third activation is entered. -/
theorem recursion_through_pointer :
    Event.enters 3 3 ∈
      (finalState (evaluate (recursive (.yeFunctionPointer pEntry []) 1) 10 false 1 pointing)).trace ∧
      ¬ 3 ≤ (recursive (.yeFunctionPointer pEntry []) 1).recursionLimit + 1 := by
  constructor
  · have hlast : (finalState (evaluate (recursive (.yeFunctionPointer pEntry []) 1) 10 false 1
        pointing)).trace.head? = some (.enters 3 3) := rfl
    exact List.mem_of_mem_head? hlast
  · decide

end YastCore.Interp
