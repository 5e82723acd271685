import YastCore.Builtin.Add
import YastCore.Interp.Admits

/-!
# Evaluation and well-formed values

Null is the result of a failed evaluation. Lists and terms keep it out, a map expression stores it as
a value, and so does the `add` of lists, which is declared to accept nil. As long as neither happens,
every value that is returned or stored is well formed.
-/

namespace YastCore.Interp

open Discipline YCPValue

/-- No map expression and no `add` of the run has put a null into a container. -/
structure Clean (adds : DeclId → Option AddBuiltin) (trace : List Event) : Prop where
  entries : ∀ k v, Event.mapEntry k v ∈ trace → k.isMapKey = true → v.isNull = false
  added : ∀ d a args, Event.builtin d args ∈ trace → adds d = some a → a.storesNull args = false

/-- All values that the state holds are sound. -/
structure StoredSound (s : State) : Prop where
  value : ∀ e, Sound (s.value e)
  stack : ∀ e l, s.stack e = some l → ∀ v ∈ l, Sound v
  functioncall : ∀ node call, s.functioncall node = some call → ∀ v ∈ call.parameters, Sound v
  backtrace : ∀ frame ∈ s.backtrace, ∀ v ∈ frame.2, Sound v

/-- An argument that a builtin gets. With `DECL_NIL` the list of those for `...` may hold nulls. -/
def Passed (b : Builtin) (v : YCPValue) : Prop :=
  Sound v ∨ b.nil = true ∧ ∃ l, v = .list l ∧ ∀ w ∈ l, Sound w

/-- A builtin other than an `add`, which makes only sound values of sound ones. -/
structure KeepsSound (b : Builtin) : Prop where
  ptr : ∀ f, b.ptr = some f → ∀ args, (∀ v ∈ args, Passed b v) → SoundRun (f args)
  handler : ∀ f, b.handler = some (some f) → ∀ args, (∀ v ∈ args, Passed b v) → SoundRun (f args)

/-- The constants of the program are sound, and `adds` are its declarations of `add`. -/
structure SoundProgram (P : Program) (adds : DeclId → Option AddBuiltin) : Prop where
  constant : ∀ p kind v, P.code p = some (.yConst kind v) → Sound v
  add : ∀ d a, adds d = some a → P.builtin d = some a.declaration
  other : ∀ d b, P.builtin d = some b → adds d = none → KeepsSound b

def soundDiscipline (adds : DeclId → Option AddBuiltin) : Discipline State where
  inv := fun s => Clean adds s.trace → StoredSound s
  le := fun s s' => ∀ event ∈ s.trace, event ∈ s'.trace
  halted := fun s => Clean adds s.trace → StoredSound s
  refl := fun _ _ h => h
  trans := fun h h' event hevent => h' event (h event hevent)
  halted_of_inv := fun h => h

/-- The value is sound if the run was clean. -/
def soundValue (adds : DeclId → Option AddBuiltin) (s : State) (v : YCPValue) : Prop :=
  Clean adds s.trace → Sound v

section Steps

variable {P : Program} {adds : DeclId → Option AddBuiltin} {s s' : State} {fuel : Nat}
  {evaluate : Evaluator}

lemma Clean.mono {trace trace' : List Event} (h : Clean adds trace')
    (hsub : ∀ event ∈ trace, event ∈ trace') : Clean adds trace where
  entries := fun k v hmem => h.entries k v (hsub _ hmem)
  added := fun d a args hmem => h.added d a args (hsub _ hmem)

/-- A step that observes no more than one event and stores sound values. -/
lemma sound_step {t : State} (hs : (soundDiscipline adds).inv s) (hle : (soundDiscipline adds).le s t)
    (hstored : Clean adds t.trace → StoredSound s → StoredSound t) :
    (soundDiscipline adds).inv t ∧ (soundDiscipline adds).le s t :=
  ⟨fun hclean => hstored hclean (hs (hclean.mono hle)), hle⟩

lemma StoredSound.update (hs : StoredSound s) {e : EntryRef} {v : YCPValue} (hv : Sound v) :
    ∀ e', Sound (Function.update s.value e v e') := by
  intro e'
  by_cases he : e' = e
  · rw [he, Function.update_self]
    exact hv
  · rw [Function.update_of_ne he]
    exact hs.value e'

lemma admitsSymbols_sound : AdmitsSymbols (soundDiscipline adds) (soundValue adds) where
  mono := fun hle hv hclean => hv (hclean.mono hle)
  plain := fun hv _ => sound_plain hv
  read := fun hs hclean => (hs hclean).value _
  assign := by
    intro s e v hs hv
    refine sound_step hs (fun _ h => h) fun hclean hstored => ?_
    exact { hstored with value := hstored.update (hv hclean) }
  push := by
    intro s e hs
    refine sound_step hs (fun _ h => h) fun _ hstored => { hstored with stack := ?_ }
    intro e' l hl v hv
    by_cases he : e' = e
    · rw [he] at hl
      simp only [Function.update_self, Option.some.injEq] at hl
      rw [← hl] at hv
      rcases List.mem_cons.mp hv with rfl | hv
      · exact hstored.value e
      · cases hstack : s.stack e with
        | none =>
          rw [hstack] at hv
          cases hv
        | some old =>
          rw [hstack] at hv
          exact hstored.stack e old hstack v hv
    · simp only [Function.update_of_ne he] at hl
      exact hstored.stack e' l hl v hv
  pop := by
    intro s e v rest hs htop
    refine sound_step hs (fun _ h => h) fun _ hstored => ?_
    have hall := hstored.stack e _ htop
    refine { hstored with value := hstored.update (hall v List.mem_cons_self), stack := ?_ }
    intro e' l hl w hw
    by_cases he : e' = e
    · rw [he] at hl
      simp only [Function.update_self, Option.some.injEq] at hl
      rw [← hl] at hw
      exact hall w (List.mem_cons_of_mem _ hw)
    · simp only [Function.update_of_ne he] at hl
      exact hstored.stack e' l hl w hw

/-! ### Expressions and builtins -/

lemma wellFormed_allGood {l : List YCPValue} (hl : AllGood (soundValue adds) s l)
    (hclean : Clean adds s.trace) : ∀ v ∈ l, WellFormed v :=
  fun v hv => ((hl v hv).1 hclean).wellFormed (hl v hv).2

lemma addEntry_sound {m : List (YCPValue × YCPValue)} {k v : YCPValue}
    (hs : (soundDiscipline adds).inv s) (hm : soundValue adds s (.map m)) (hv : soundValue adds s v) :
    (soundDiscipline adds).Runs s (addEntry m k v) fun s' m' => soundValue adds s' (.map m') := by
  have hsub : ∀ event ∈ s.trace, event ∈ Event.mapEntry k v :: s.trace :=
    fun _ => List.mem_cons_of_mem _
  obtain ⟨hinv, hle⟩ := sound_step (t := { s with trace := .mapEntry k v :: s.trace }) hs hsub
    fun _ hstored => { hstored with }
  refine runs_modify hle ?_
  split
  next m' heq =>
    refine runs_pure hinv fun hclean => ?_
    have hmap := (hm (hclean.mono hsub)).wellFormed rfl
    unfold mapAdd at heq
    split at heq
    · cases heq
    split at heq
    next hkey =>
      cases heq
      have hnull := hclean.entries k v List.mem_cons_self hkey
      exact .inr (wellFormed_mapInsert hmap hkey ((hv (hclean.mono hsub)).wellFormed hnull))
    · cases heq
      exact .inr hmap
  · exact runs_throw hinv

lemma runBuiltin_sound (h : Evaluates (soundDiscipline adds) (soundValue adds) evaluate)
    (run : BuiltinRun) (hs : (soundDiscipline adds).inv s)
    (hrun : Clean adds s.trace → SoundRun run) :
    (soundDiscipline adds).Runs s (runBuiltin P fuel evaluate run) (soundValue adds) := by
  have A : AdmitsSymbols (soundDiscipline adds) (soundValue adds) := admitsSymbols_sound
  induction run generalizing s with
  | ret v => exact runs_pure hs hrun
  | crash => exact runs_throw hs
  | evaluate code next ih =>
    refine runs_bind (h false code s hs) fun v s' hs' hle hv => ?_
    exact ih v hs' fun hclean => hrun (hclean.mono hle) v (hv hclean)
  | value entry next ih =>
    refine runs_bind (A.entryValue_keeps entry s hs) fun v s' hs' hle hv => ?_
    exact ih v hs' fun hclean => hrun (hclean.mono hle) v (hv hclean)
  | setValue entry v next ih =>
    refine runs_bind (A.setValue_runs hs fun hclean => (hrun hclean).1) fun _ s' hs' hle _ => ?_
    exact ih hs' fun hclean => (hrun (hclean.mono hle)).2
  | outside act next ih =>
    refine runs_get ?_
    obtain ⟨hinv, hle⟩ := sound_step (t := { s with world := (act s.world).2 }) hs (fun _ h => h)
      fun _ hstored => { hstored with }
    exact runs_modify hle (ih _ hinv fun hclean => hrun hclean s.world)

lemma callBuiltin_sound (h : Evaluates (soundDiscipline adds) (soundValue adds) evaluate)
    {d : DeclId} {ptr : Option (List YCPValue → BuiltinRun)} {args : List YCPValue}
    (hs : (soundDiscipline adds).inv s)
    (hrun : ∀ f, ptr = some f → Clean adds (.builtin d args :: s.trace) → SoundRun (f args)) :
    (soundDiscipline adds).Runs s (callBuiltin P fuel evaluate d ptr args) (soundValue adds) := by
  unfold callBuiltin
  split
  · exact runs_throw hs
  next f =>
    obtain ⟨hinv, hle⟩ := sound_step (t := { s with trace := .builtin d args :: s.trace }) hs
      (fun _ => List.mem_cons_of_mem _) fun _ hstored => { hstored with }
    exact runs_modify hle (runBuiltin_sound h _ hinv (hrun f rfl))

/-- A declared builtin with arguments as it may get them. -/
lemma SoundProgram.soundRun (hP : SoundProgram P adds) {d : DeclId} {b : Builtin}
    (hb : P.builtin d = some b) {args : List YCPValue} (hargs : ∀ v ∈ args, Passed b v)
    (hadd : ∀ a, adds d = some a → ∀ v ∈ args, Sound v) {trace : List Event}
    (hclean : Clean adds (.builtin d args :: trace)) {f : List YCPValue → BuiltinRun}
    (hf : b.ptr = some f) : SoundRun (f args) := by
  cases ha : adds d with
  | none => exact (hP.other d b hb ha).ptr f hf args hargs
  | some a =>
    have hdecl := hP.add d a ha
    rw [hb] at hdecl
    cases hdecl
    cases hf
    exact a.soundRun_function (hadd a ha) (hclean.added d a args List.mem_cons_self ha)

lemma mem_passedArgs {count : Nat} {args : List YCPValue} {v : YCPValue}
    (hv : v ∈ passedArgs count args) : v ∈ args ∨ v = null := by
  rcases List.mem_append.mp (List.mem_of_mem_take hv) with hv | hv
  · exact .inl hv
  · exact .inr (List.eq_of_mem_replicate hv)

lemma passed_collectWildcard {b : Builtin} {args : List YCPValue} (hargs : ∀ v ∈ args, Sound v)
    (hnil : b.nil = false → ∀ v ∈ args, v.isNull = false) :
    ∀ v ∈ collectWildcard b.parameters args, Passed b v := by
  intro v hv
  unfold collectWildcard at hv
  split at hv
  next typepos _ =>
    rcases List.mem_append.mp hv with hv | hv
    · exact .inl (hargs v (List.mem_of_mem_take hv))
    · rw [List.mem_singleton.mp hv]
      cases hb : b.nil with
      | true => exact .inr ⟨hb, _, rfl, fun w hw => hargs w (List.mem_of_mem_drop hw)⟩
      | false =>
        refine .inl (.inr (.list fun w hw => ?_))
        have hmem := List.mem_of_mem_drop hw
        exact (hargs w hmem).wellFormed (hnil hb w hmem)
  · exact .inl (hargs v hv)

/-- No `add` is declared with `...`. -/
lemma collectWildcard_add (a : AddBuiltin) (args : List YCPValue) :
    collectWildcard a.declaration.parameters args = args := by
  have hnone (i : Nat) : (YType.parameterType a.declaration.parameters i).isWildcard = false := by
    cases a <;> rcases i with _ | _ | _ | i <;> rfl
  unfold collectWildcard
  rw [List.find?_eq_none.mpr (by simp [hnone])]

lemma applyBuiltin_sound (hP : SoundProgram P adds)
    (h : Evaluates (soundDiscipline adds) (soundValue adds) evaluate) {d : DeclId} {b : Builtin}
    {block : CodePtr} {args : List YCPValue} (hb : P.builtin d = some b)
    (hs : (soundDiscipline adds).inv s) (hargs : ∀ v ∈ args, soundValue adds s v)
    (hnil : b.nil = false → ∀ v ∈ args, v.isNull = false) :
    (soundDiscipline adds).Runs s (applyBuiltin P fuel evaluate d b block args)
      (soundValue adds) := by
  have A : AdmitsSymbols (soundDiscipline adds) (soundValue adds) := admitsSymbols_sound
  have hpassed {count : Nat} (hclean : Clean adds s.trace) :
      ∀ v ∈ passedArgs count (collectWildcard b.parameters args), Passed b v := by
    intro v hv
    rcases mem_passedArgs hv with hv | rfl
    · exact passed_collectWildcard (fun w hw => hargs w hw hclean) hnil v hv
    · exact .inl sound_null
  unfold applyBuiltin
  dsimp only
  split
  · exact A.runs_null hs
  split
  next handler hhandler =>
    refine callBuiltin_sound h hs fun f hf hclean => ?_
    cases hf
    have hclean' := hclean.mono fun _ => List.mem_cons_of_mem _
    cases ha : adds d with
    | none => exact (hP.other d b hb ha).handler handler hhandler _ (hpassed hclean')
    | some a =>
      have hdecl := hP.add d a ha
      rw [hb] at hdecl
      cases hdecl
      cases hhandler
  · exact A.runs_null hs
  · refine A.withPushed_runs hs fun s' hs' hle => ?_
    split
    · refine callBuiltin_sound h hs' fun f hf hclean => ?_
      have hclean' : Clean adds s.trace := hclean.mono fun event hmem => List.mem_cons_of_mem _ (hle event hmem)
      refine hP.soundRun hb (hpassed hclean') (fun a ha v hv => ?_) hclean hf
      have hdecl := hP.add d a ha
      rw [hb] at hdecl
      cases hdecl
      rw [collectWildcard_add] at hv
      rcases mem_passedArgs hv with hv | rfl
      · exact hargs v hv hclean'
      · exact sound_null
    · exact A.runs_null hs'

/-! ### Calls -/

lemma attachParameters_forall {p : YCPValue → Prop} {call call' : FunctionCall} {pos : Nat}
    {args : List YCPValue} (hcall : ∀ v ∈ call.parameters, p v) (hargs : ∀ v ∈ args, p v)
    (h : attachParameters P call pos args = some call') : ∀ v ∈ call'.parameters, p v := by
  induction args generalizing call pos with
  | nil =>
    cases h
    exact hcall
  | cons arg args ih =>
    have hrest : ∀ v ∈ args, p v := fun v hv => hargs v (List.mem_cons_of_mem _ hv)
    unfold attachParameters at h
    split at h
    · exact ih hcall hrest h
    split at h
    · refine ih (fun v hv => ?_) hrest h
      rcases List.mem_or_eq_of_mem_set hv with hv | rfl
      · exact hcall v hv
      · exact hargs v List.mem_cons_self
    · cases h

lemma sound_fresh (f : EntryRef) : ∀ v ∈ (FunctionCall.fresh P f).parameters, Sound v := by
  intro v hv
  rw [List.eq_of_mem_replicate hv]
  exact sound_null

lemma setFunctionCall_sound {node : CodePtr} {call : FunctionCall} (hs : (soundDiscipline adds).inv s)
    (hcall : Clean adds s.trace → ∀ v ∈ call.parameters, Sound v) :
    (soundDiscipline adds).Runs s (setFunctionCall node call) fun _ _ => True := by
  have hstep := sound_step
    (t := { s with functioncall := Function.update s.functioncall node (some call) }) hs
    (fun _ h => h) fun hclean hstored => { hstored with functioncall := ?_ }
  · exact ⟨hstep.1, hstep.2, trivial⟩
  · intro node' call' hcall' v hv
    by_cases hnode : node' = node
    · rw [hnode] at hcall'
      simp only [Function.update_self, Option.some.injEq] at hcall'
      rw [← hcall'] at hv
      exact hcall hclean v hv
    · simp only [Function.update_of_ne hnode] at hcall'
      exact hstored.functioncall node' call' hcall' v hv

lemma attachArgs_sound {node : CodePtr} {args : List YCPValue} (hs : (soundDiscipline adds).inv s)
    (hargs : AllGood (soundValue adds) s args) :
    (soundDiscipline adds).Runs s (attachArgs P node args) fun _ _ => True := by
  unfold attachArgs
  refine runs_get ?_
  split
  · exact runs_throw hs
  next call hcall =>
    split
    · exact runs_throw hs
    next call' hattach =>
      refine setFunctionCall_sound hs fun hclean => ?_
      exact attachParameters_forall ((hs hclean).functioncall node call hcall)
        (fun v hv => (hargs v hv).1 hclean) hattach

lemma prepareCall_sound (h : Evaluates (soundDiscipline adds) (soundValue adds) evaluate)
    {node : CodePtr} {f : EntryRef} {parameters : List CodePtr} (hs : (soundDiscipline adds).inv s) :
    (soundDiscipline adds).Runs s (prepareCall P evaluate node f parameters) fun s' r =>
      ∀ args, r = some args → AllGood (soundValue adds) s' args := by
  have A : AdmitsSymbols (soundDiscipline adds) (soundValue adds) := admitsSymbols_sound
  obtain ⟨hbegun, hle⟩ := sound_step (t := { s with
      trace := .begins node f s.pending :: s.trace, pending := (node, f) :: s.pending }) hs
    (fun _ => List.mem_cons_of_mem _) fun _ hstored => { hstored with }
  refine runs_modify hle ?_
  refine runs_bind (A.evaluateParameters_runs h parameters hbegun (List.forall_mem_nil _)) ?_
  intro r s₁ hs₁ _ hr
  obtain ⟨hended, hle₁⟩ := sound_step (t := { s₁ with pending := s₁.pending.tail }) hs₁
    (fun _ h => h) fun _ hstored => { hstored with }
  refine runs_modify hle₁ ?_
  split
  · exact runs_pure hended (by simp)
  next args =>
    have hargs : AllGood (soundValue adds) { s₁ with pending := s₁.pending.tail } args := hr args rfl
    refine runs_bind (attachArgs_sound hended hargs) fun _ s₂ hs₂ hle₂ _ => ?_
    refine runs_pure hs₂ fun args' heq => ?_
    rw [← Option.some.inj heq]
    exact A.mono_all hle₂ hargs

/-- The call object that is taken holds sound values. -/
lemma takeCall_sound (node : CodePtr) (f : EntryRef) (args : List YCPValue)
    (hs : (soundDiscipline adds).inv s) :
    (soundDiscipline adds).Runs s (takeCall node f args) fun s' call =>
      ∀ v ∈ call.parameters, soundValue adds s' v := by
  unfold takeCall
  refine runs_get ?_
  split
  · exact runs_throw hs
  next call hcall =>
    obtain ⟨hinv, hle⟩ := sound_step (t := { s with trace := .calls node f args call :: s.trace })
      hs (fun _ => List.mem_cons_of_mem _) fun _ hstored => { hstored with }
    refine runs_modify hle (runs_pure hinv fun v hv hclean => ?_)
    exact (hs (hclean.mono hle)).functioncall node call hcall v hv

lemma directCall_sound (node : CodePtr) (entry : EntryRef) :
    (soundDiscipline adds).Keeps (directCall P node entry) fun _ _ => True := by
  intro s hs
  unfold directCall
  refine runs_get ?_
  split
  · split
    · exact runs_pure hs trivial
    · refine runs_bind (setFunctionCall_sound hs fun _ => sound_fresh _) fun _ s' hs' _ _ => ?_
      exact runs_pure hs' trivial
  · refine runs_bind (setFunctionCall_sound hs fun _ => sound_fresh _) fun _ s' hs' _ _ => ?_
    exact runs_pure hs' trivial

/-- The counters around a call change no value. -/
lemma runs_around {α : Type} {opening closing : State → State} {x : M α} {Q : State → α → Prop}
    (hopen : (soundDiscipline adds).inv (opening s) ∧ (soundDiscipline adds).le s (opening s))
    (hx : (soundDiscipline adds).Runs (opening s) x Q)
    (hclose : ∀ s', (soundDiscipline adds).inv s' →
      (soundDiscipline adds).inv (closing s') ∧ (soundDiscipline adds).le s' (closing s'))
    (hQ : ∀ s' a, Q s' a → Q (closing s') a) :
    (soundDiscipline adds).Runs s (do
      modify opening
      let value ← x
      modify closing
      return value : M α) Q := by
  refine runs_modify hopen.2 ?_
  refine runs_bind hx fun value s' hs' _ hvalue => ?_
  obtain ⟨hinv, hle⟩ := hclose s' hs'
  exact runs_modify hle (runs_pure hinv (hQ s' value hvalue))

lemma evaluateCall_sound (h : Evaluates (soundDiscipline adds) (soundValue adds) evaluate)
    {call : FunctionCall} (hs : (soundDiscipline adds).inv s)
    (hcall : ∀ v ∈ call.parameters, soundValue adds s v) :
    (soundDiscipline adds).Runs s (evaluateCall P fuel evaluate call) (soundValue adds) := by
  have A : AdmitsSymbols (soundDiscipline adds) (soundValue adds) := admitsSymbols_sound
  obtain ⟨hinv, hle⟩ := sound_step (t := { s with
      depth := s.depth + 1, trace := .enters (s.depth + 1) s.unframed :: s.trace }) hs
    (fun _ => List.mem_cons_of_mem _) fun _ hstored => { hstored with }
  refine runs_around ⟨hinv, hle⟩ ?_ (fun s' hs' => ?_) fun _ _ hvalue => hvalue
  · exact A.runFunction_runs h hinv fun v hv => A.mono hle (hcall v hv)
  · exact sound_step hs' (fun _ h => h) fun _ hstored => { hstored with }

lemma unframedCall_sound (h : Evaluates (soundDiscipline adds) (soundValue adds) evaluate)
    (call : FunctionCall) (hs : (soundDiscipline adds).inv s)
    (hcall : ∀ v ∈ call.parameters, soundValue adds s v) :
    (soundDiscipline adds).Runs s (unframedCall P fuel evaluate call) (soundValue adds) := by
  obtain ⟨hinv, hle⟩ := sound_step (t := { s with unframed := s.unframed + 1 }) hs
    (fun _ h => h) fun _ hstored => { hstored with }
  refine runs_around ⟨hinv, hle⟩ (evaluateCall_sound h hinv hcall) (fun s' hs' => ?_)
    fun _ _ hvalue => hvalue
  exact sound_step hs' (fun _ h => h) fun _ hstored => { hstored with }

lemma framedCall_sound (h : Evaluates (soundDiscipline adds) (soundValue adds) evaluate)
    {node : CodePtr} {args : List YCPValue} {call : FunctionCall}
    (hs : (soundDiscipline adds).inv s) (hargs : AllGood (soundValue adds) s args)
    (hcall : ∀ v ∈ call.parameters, soundValue adds s v) :
    (soundDiscipline adds).Runs s (framedCall P fuel evaluate node args call) (soundValue adds) := by
  have hstored (hclean : Clean adds s.trace) :
      ∀ frame ∈ (node, args) :: s.backtrace, ∀ v ∈ frame.2, Sound v := by
    intro frame hframe v hv
    rcases List.mem_cons.mp hframe with rfl | hframe
    · exact (hargs v hv).1 hclean
    · exact (hs hclean).backtrace frame hframe v hv
  obtain ⟨hinv, hle⟩ := sound_step (t := { s with backtrace := (node, args) :: s.backtrace }) hs
    (fun _ h => h) fun hclean h => { h with backtrace := hstored hclean }
  refine runs_around ⟨hinv, hle⟩ (evaluateCall_sound h hinv hcall) (fun s' hs' => ?_)
    fun _ _ hvalue => hvalue
  refine sound_step hs' (fun _ h => h) fun _ hstored => { hstored with backtrace := ?_ }
  exact fun frame hframe => hstored.backtrace frame (List.mem_of_mem_tail hframe)

lemma yeFunction_sound (h : Evaluates (soundDiscipline adds) (soundValue adds) evaluate)
    {node : CodePtr} {entry : EntryRef} {parameters : List CodePtr} :
    (soundDiscipline adds).Keeps (yeFunction P fuel evaluate false node entry parameters)
      (soundValue adds) := by
  have A : AdmitsSymbols (soundDiscipline adds) (soundValue adds) := admitsSymbols_sound
  intro s hs
  refine runs_bind (directCall_sound node entry s hs) fun f s₁ hs₁ _ _ => ?_
  split
  · exact runs_pure hs₁ (A.plain rfl)
  next f =>
    refine runs_bind (prepareCall_sound h hs₁) fun r s₂ hs₂ _ hr => ?_
    split
    · exact A.runs_null hs₂
    next args =>
      refine runs_get ?_
      split
      · exact runs_pure hs₂ (A.plain rfl)
      · refine runs_bind (takeCall_sound node f args hs₂) fun call s₃ hs₃ hle hcall => ?_
        exact framedCall_sound h hs₃ (A.mono_all hle (hr args rfl)) hcall

lemma yeFunctionPointer_sound (h : Evaluates (soundDiscipline adds) (soundValue adds) evaluate)
    {node : CodePtr} {entry : EntryRef} {parameters : List CodePtr} :
    (soundDiscipline adds).Keeps (yeFunctionPointer P fuel evaluate false node entry parameters)
      (soundValue adds) := by
  have A : AdmitsSymbols (soundDiscipline adds) (soundValue adds) := admitsSymbols_sound
  intro s hs
  refine runs_bind (A.entryValue_keeps entry s hs) fun value s₁ hs₁ _ _ => ?_
  split
  · split
    · exact runs_pure hs₁ (A.plain rfl)
    next f _ =>
      refine runs_bind (setFunctionCall_sound hs₁ fun _ => sound_fresh f) fun _ s₂ hs₂ _ _ => ?_
      refine runs_bind (prepareCall_sound h hs₂) fun r s₃ hs₃ _ hr => ?_
      split
      · exact A.runs_null hs₃
      next args =>
        refine runs_bind (takeCall_sound node f args hs₃) fun call s₄ hs₄ _ hcall => ?_
        exact unframedCall_sound h call hs₄ hcall
  · exact runs_pure hs₁ (A.plain rfl)

end Steps

/-! ### All runs -/

lemma admits_sound {P : Program} {adds : DeclId → Option AddBuiltin} (hP : SoundProgram P adds) :
    Admits P (soundDiscipline adds) (soundValue adds) where
  toAdmitsValues := admitsSymbols_sound.toAdmitsValues
  constant := fun hp _ => hP.constant _ _ _ hp
  list := fun hl hclean => .inr (.list (wellFormed_allGood hl hclean))
  term := fun hl hclean => .inr (.term (wellFormed_allGood hl hclean))
  emptyMap := fun _ => .inr (.map (List.forall_mem_nil _) (List.forall_mem_nil _))
  addEntry := fun hs hm _ hv => addEntry_sound hs hm hv
  bracketLoop := fun hv _ hclean => sound_bracketLoop (hv hclean) _
  commit := fun hcurrent _ hv hnull hclean =>
    sound_commit (hcurrent hclean) _ ((hv hclean).wellFormed hnull)
  running := fun hs => sound_step hs (fun _ h => h) fun _ hstored => { hstored with }
  initialized := fun hs => sound_step hs (fun _ h => h) fun _ hstored => { hstored with }
  pushed := admitsSymbols_sound.withPushed_keeps
  pushedModule := fun _ _ => admitsSymbols_sound.pushAll_keeps _
  callBuiltin := by
    intro fuel evaluate d b args s h hb hs hargs _
    refine callBuiltin_sound h hs fun f hf hclean => ?_
    have hclean' := hclean.mono fun _ => List.mem_cons_of_mem _
    exact hP.soundRun hb (fun v hv => .inl (hargs v hv hclean')) (fun _ _ v hv => hargs v hv hclean')
      hclean hf
  applyBuiltin := fun h hb hs hargs hnil => applyBuiltin_sound hP h hb hs hargs hnil
  function := fun h _ => yeFunction_sound h
  functionPointer := fun h _ => yeFunctionPointer_sound h
  constructor := by
    intro fuel evaluate f h s hs
    have hrun : (soundDiscipline adds).Runs s (unframedCall P fuel evaluate (.fresh P f))
        (soundValue adds) :=
      unframedCall_sound h _ hs fun v hv _ => sound_fresh f v hv
    exact hrun.mono fun _ _ _ _ _ => trivial

/-- `compare` and `writeValue` run through the value without meeting a null. The sizes keep their
loops from running without end. -/
structure MeetsNoNull (v : YCPValue) : Prop where
  compare : ∀ w, WellFormed w → v.sizesAtMost (2 ^ 31 - 1) = true →
    w.sizesAtMost (2 ^ 31 - 1) = true → (v.compare w).isSome = true ∧ (w.compare v).isSome = true
  writeValue : ∀ isprint writeCode writeEntry, v.sizesAtMost (2 ^ 31 - 1) = true →
    (∀ c, (writeCode c).isSome = true) → (∀ e, (writeEntry e).isSome = true) →
    (Bytecode.writeValue isprint writeCode writeEntry v).isSome = true

lemma meetsNoNull_of_wellFormed {v : YCPValue} (hv : WellFormed v) : MeetsNoNull v where
  compare := fun _ hw hsize hsize' => ⟨hv.compare_isSome hw hsize hsize', hw.compare_isSome hv hsize' hsize⟩
  writeValue := fun _ _ _ hsize hcode hentry => hv.writeValue_isSome hsize hcode hentry

/-- In every run, up to every point of it, all values that are stored are well formed where they are
not null, and so is the value returned, provided that no map expression and no `add` put a null into
a container. -/
theorem evaluate_sound (P : Program) (adds : DeclId → Option AddBuiltin) (hP : SoundProgram P adds)
    (fuel : Nat) (cse : Bool) (ptr : CodePtr) (s : State) (hs : StoredSound s)
    (hclean : Clean adds (finalState (evaluate P fuel cse ptr s)).trace) :
    StoredSound (finalState (evaluate P fuel cse ptr s)) ∧
      ∀ v s', evaluate P fuel cse ptr s = .ok v s' → v.isNull = false →
        WellFormed v ∧ MeetsNoNull v := by
  have hrun := (admits_sound hP).evaluates fuel cse ptr s fun _ => hs
  cases hresult : evaluate P fuel cse ptr s with
  | error e s' =>
    rw [hresult] at hclean
    refine ⟨hrun.of_error hresult hclean, ?_⟩
    intro v s'' h
    cases h
  | ok v s' =>
    rw [hresult] at hclean
    obtain ⟨hinv, _, hv⟩ := hrun.of_ok hresult
    refine ⟨hinv hclean, ?_⟩
    intro w s'' h hnull
    cases h
    have hwell := (hv hclean).wellFormed hnull
    exact ⟨hwell, meetsNoNull_of_wellFormed hwell⟩

/-! ### A map expression with a value that fails -/

def xSymbol : EntryRef := ⟨.block 0, 0⟩

/-- The map `$[1: value]` for a value expression at the address 3, with a variable `x`. -/
def mapOf (value : Node CodePtr) : Program :=
  .ofNodes [.yeMap [(2, 3)], .yConst .ycInteger (.integer 1), value, .yeVariable xSymbol]
    (fun _ => ⟨.c_variable, .base .integerT unqualified, 0⟩) 100

lemma storedSound_start : StoredSound State.start where
  value := fun _ => sound_null
  stack := fun _ _ h => nomatch h
  functioncall := fun _ _ h => nomatch h
  backtrace := fun _ h => nomatch h

lemma soundProgram_mapOf {value : Node CodePtr} (hvalue : ∀ kind v, value ≠ .yConst kind v) :
    SoundProgram (mapOf value) fun _ => none where
  constant := by
    intro p kind v hp
    rcases p with _ | _ | _ | _ | _ | p
    · cases hp
    · cases hp
    · cases hp
      exact sound_plain rfl
    · exact absurd (Option.some.inj hp) (hvalue kind v)
    · cases hp
    · cases hp
  add := fun _ _ h => nomatch h
  other := fun _ _ h => nomatch h

/-- The list `[x]` in the map holds nil for the variable that has no value. -/
theorem evaluate_sound_list :
    ∃ s', evaluate (mapOf (.yeList [4])) 5 false 1 State.start =
        .ok (.map [(.integer 1, .list [.void])]) s' ∧
      StoredSound s' ∧ WellFormed (.map [(.integer 1, .list [.void])]) := by
  have hrun : evaluate (mapOf (.yeList [4])) 5 false 1 State.start =
      .ok (.map [(.integer 1, .list [.void])])
        { State.start with trace := [.mapEntry (.integer 1) (.list [.void])] } := rfl
  have hclean : Clean (fun _ => none)
      (finalState (evaluate (mapOf (.yeList [4])) 5 false 1 State.start)).trace := by
    rw [hrun]
    refine ⟨?_, fun _ _ _ _ h => nomatch h⟩
    intro k v hmem _
    simp only [finalState, List.mem_singleton, Event.mapEntry.injEq] at hmem
    rw [hmem.2]
    rfl
  obtain ⟨hstored, hvalue⟩ := evaluate_sound (mapOf (.yeList [4])) (fun _ => none)
    (soundProgram_mapOf fun _ _ h => nomatch h) 5 false 1 State.start storedSound_start hclean
  refine ⟨_, hrun, ?_, (hvalue _ _ hrun rfl).1⟩
  rw [hrun] at hstored
  exact hstored

/-- The comparison `x < x` fails for the variable that has no value, and the map holds the null. -/
theorem evaluate_map_null :
    ∃ s', evaluate (mapOf (.yeCompare 4 4 4)) 5 false 1 State.start =
        .ok (.map [(.integer 1, .null)]) s' ∧
      ¬ WellFormed (.map [(.integer 1, .null)]) := by
  refine ⟨_, rfl, fun h => ?_⟩
  have hvalue := (h.entries _ List.mem_cons_self).2.notNull
  cases hvalue

end YastCore.Interp
