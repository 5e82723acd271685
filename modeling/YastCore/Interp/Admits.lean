import YastCore.Interp.Evaluate
import YastCore.Lib.Discipline
import YastCore.Value.WellFormed

/-!
# Invariants of evaluation

A discipline of states, with a property of the values that evaluation yields, is respected by every
evaluation once it admits the few operations that touch the state. The argument goes through the
classes of code one by one, and by the fuel through all nestings.
-/

namespace YastCore.Interp

open Discipline

/-- All values in a list are good, and none is null. -/
def AllGood (good : State → YCPValue → Prop) (s : State) (l : List YCPValue) : Prop :=
  ∀ v ∈ l, good s v ∧ v.isNull = false

/-- Every way of evaluating code respects the discipline and yields good values. -/
def Evaluates (D : Discipline State) (good : State → YCPValue → Prop) (evaluate : Evaluator) : Prop :=
  ∀ cse p, D.Keeps (evaluate cse p) good

/-! ### Symbol entries -/

/-- What a discipline must admit of the values of the symbols. -/
structure AdmitsValues (D : Discipline State) (good : State → YCPValue → Prop) : Prop where
  mono : ∀ {s s' v}, D.le s s' → good s v → good s' v
  plain : ∀ {s v}, v.holdsNothing = true → good s v
  read : ∀ {s e}, D.inv s → good s (s.value e)
  assign : ∀ {s e v}, D.inv s → good s v →
    D.inv { s with value := Function.update s.value e v } ∧
      D.le s { s with value := Function.update s.value e v }

/-- What a discipline must admit of the recursion stacks. -/
structure AdmitsSymbols (D : Discipline State) (good : State → YCPValue → Prop) : Prop
    extends AdmitsValues D good where
  push : ∀ {s e}, D.inv s →
    D.inv { s with stack := Function.update s.stack e (some (s.value e :: (s.stack e).getD [])) } ∧
      D.le s { s with stack := Function.update s.stack e (some (s.value e :: (s.stack e).getD [])) }
  pop : ∀ {s e v rest}, D.inv s → s.stack e = some (v :: rest) →
    D.inv { s with
        value := Function.update s.value e v, stack := Function.update s.stack e (some rest) } ∧
      D.le s { s with
        value := Function.update s.value e v, stack := Function.update s.stack e (some rest) }

section Symbols

variable {P : Program} {D : Discipline State} {good : State → YCPValue → Prop} {s : State}
  {fuel : Nat} {evaluate : Evaluator}

lemma allGood_append {l : List YCPValue} {v : YCPValue} (hl : AllGood good s l) (hv : good s v)
    (hnull : v.isNull = false) : AllGood good s (l ++ [v]) := by
  intro w hw
  rcases List.mem_append.mp hw with hw | hw
  · exact hl w hw
  · rw [List.mem_singleton.mp hw]
    exact ⟨hv, hnull⟩

namespace AdmitsValues

variable (A : AdmitsValues D good)
include A

lemma mono_all {s' : State} (h : D.le s s') {l : List YCPValue} (hl : AllGood good s l) :
    AllGood good s' l :=
  fun v hv => ⟨A.mono h (hl v hv).1, (hl v hv).2⟩

lemma runs_null (hs : D.inv s) : D.Runs s (pure .null : M YCPValue) good :=
  runs_pure hs (A.plain rfl)

lemma entryValue_keeps (e : EntryRef) : D.Keeps (entryValue P fuel e) good := by
  induction fuel generalizing e with
  | zero =>
    intro s hs
    exact runs_throw hs
  | succ fuel ih =>
    intro s hs
    unfold entryValue
    refine runs_get ?_
    have hread : good s (s.value e) := A.read hs
    split
    · split
      next target _ => exact ih target s hs
      next => exact runs_pure hs hread
    · exact runs_pure hs hread

lemma assign_runs (hs : D.inv s) {e : EntryRef} {v : YCPValue} (hv : good s v) :
    D.Runs s (Interp.assign e v) (fun _ _ => True) := by
  obtain ⟨hinv, hle⟩ := A.assign hs hv
  exact ⟨hinv, hle, trivial⟩

lemma setValue_runs (hs : D.inv s) {e : EntryRef} {v : YCPValue} (hv : good s v) :
    D.Runs s (setValue P fuel e v) (fun _ _ => True) := by
  induction fuel generalizing e with
  | zero => exact runs_throw hs
  | succ fuel ih =>
    unfold setValue
    split
    · split
      next => exact A.assign_runs hs hv
      next =>
        refine runs_get ?_
        split
        next => exact ih
        next => exact runs_pure hs trivial
    · refine A.assign_runs hs ?_
      split
      · exact A.plain rfl
      · exact hv

lemma bindFormals_runs {parameters : List YCPValue} (p : Nat) (formals : List EntryRef)
    (hs : D.inv s) (hparameters : ∀ v ∈ parameters, good s v) :
    D.Runs s (bindFormals P fuel parameters p formals) fun _ _ => True := by
  induction formals generalizing s p with
  | nil => exact runs_pure hs trivial
  | cons formal formals ih =>
    unfold bindFormals
    split
    · exact runs_throw hs
    next value hvalue =>
      split
      · exact runs_pure hs trivial
      · have hgood := hparameters value (List.mem_of_getElem? hvalue)
        refine runs_bind (A.setValue_runs hs hgood) fun _ s' hs' hle _ => ?_
        exact ih _ hs' fun v hv => A.mono hle (hparameters v hv)

lemma evaluateParameters_runs (h : Evaluates D good evaluate) {args : List YCPValue}
    (ps : List CodePtr) (hs : D.inv s) (hargs : AllGood good s args) :
    D.Runs s (evaluateParameters evaluate args ps) fun s' r =>
      ∀ args, r = some args → AllGood good s' args := by
  induction ps generalizing s args with
  | nil =>
    refine runs_pure hs fun args' heq => ?_
    rw [← Option.some.inj heq]
    exact hargs
  | cons p ps ih =>
    refine runs_bind (h false p s hs) fun value s' hs' hle hvalue => ?_
    by_cases hnull : value.isNull
    · rw [if_pos hnull]
      exact runs_pure hs' (by simp)
    · rw [if_neg hnull]
      exact ih hs' (allGood_append (A.mono_all hle hargs) hvalue (by simpa using hnull))

end AdmitsValues

namespace AdmitsSymbols

variable (A : AdmitsSymbols D good)
include A

lemma pushAll_keeps (entries : List EntryRef) : D.Keeps (pushAll entries) fun _ _ => True := by
  induction entries with
  | nil => exact fun s hs => runs_pure hs trivial
  | cons e es ih =>
    intro s hs
    obtain ⟨hinv, hle⟩ := A.push (e := e) hs
    exact runs_modify hle (ih _ hinv)

lemma pop_keeps (e : EntryRef) : D.Keeps (Interp.pop e) fun _ _ => True := by
  intro s hs
  unfold Interp.pop
  refine runs_get ?_
  split
  · exact runs_pure hs trivial
  · exact runs_throw hs
  next heq =>
    obtain ⟨hinv, hle⟩ := A.pop hs heq
    exact ⟨hinv, hle, trivial⟩

lemma popAll_keeps (entries : List EntryRef) : D.Keeps (popAll entries) fun _ _ => True := by
  induction entries with
  | nil => exact fun s hs => runs_pure hs trivial
  | cons e es ih =>
    intro s hs
    exact runs_bind (A.pop_keeps e s hs) fun _ s' hs' _ _ => ih s' hs'

lemma withPushed_runs {entries : List EntryRef} {body : M YCPValue} (hs : D.inv s)
    (hbody : ∀ s', D.inv s' → D.le s s' → D.Runs s' body good) :
    D.Runs s (withPushed entries body) good := by
  refine runs_bind (A.pushAll_keeps entries s hs) fun _ s₁ hs₁ hle _ => ?_
  refine runs_bind (hbody s₁ hs₁ hle) fun v s₂ hs₂ _ hv => ?_
  refine runs_bind (A.popAll_keeps entries s₂ hs₂) fun _ s₃ hs₃ hle₃ _ => ?_
  exact runs_pure hs₃ (A.mono hle₃ hv)

lemma withPushed_keeps {entries : List EntryRef} {body : M YCPValue} (hbody : D.Keeps body good) :
    D.Keeps (withPushed entries body) good :=
  fun _ hs => A.withPushed_runs hs fun s' hs' _ => hbody s' hs'

lemma runFunction_runs (h : Evaluates D good evaluate) {call : FunctionCall} (hs : D.inv s)
    (hparameters : ∀ v ∈ call.parameters, good s v) :
    D.Runs s (runFunction P fuel evaluate call) good := by
  unfold runFunction
  split
  next declaration definition _ =>
    refine runs_bind (A.pushAll_keeps _ s hs) fun _ s₁ hs₁ hle₁ _ => ?_
    split
    · exact A.runs_null hs₁
    have hparameters₁ (v : YCPValue) (hv : v ∈ call.parameters) : good s₁ v :=
      A.mono hle₁ (hparameters v hv)
    refine runs_bind (A.bindFormals_runs 0 _ hs₁ hparameters₁) fun bound s₂ hs₂ _ _ => ?_
    split
    · refine runs_bind (h false definition s₂ hs₂) fun value s₃ hs₃ _ hvalue => ?_
      refine runs_bind (A.popAll_keeps _ s₃ hs₃) fun _ s₄ hs₄ hle₄ _ => ?_
      exact runs_pure hs₄ (A.mono hle₄ hvalue)
    · refine runs_bind (A.popAll_keeps _ s₂ hs₂) fun _ s₃ hs₃ _ _ => ?_
      exact A.runs_null hs₃
  · exact runs_throw hs

end AdmitsSymbols

end Symbols

/-! ### All operations -/

/-- What a discipline must admit, and a property of values be closed under. -/
structure Admits (P : Program) (D : Discipline State) (good : State → YCPValue → Prop) : Prop
    extends AdmitsValues D good where
  constant : ∀ {s p kind v}, P.code p = some (.yConst kind v) → good s v
  list : ∀ {s l}, AllGood good s l → good s (.list l)
  term : ∀ {s name l}, AllGood good s l → good s (.term name l)
  emptyMap : ∀ {s}, good s (.map [])
  addEntry : ∀ {s m k v}, D.inv s → good s (.map m) → good s k → good s v →
    D.Runs s (addEntry m k v) fun s' m' => good s' (.map m')
  bracketLoop : ∀ {s v indices}, good s v → good s (.list indices) →
    good s (v.bracketLoop indices)
  commit : ∀ {s current indices v}, good s current → good s (.list indices) → good s v →
    v.isNull = false → good s (current.commit indices v)
  running : ∀ {s r}, D.inv s → D.inv { s with running := r } ∧ D.le s { s with running := r }
  initialized : ∀ {s r}, D.inv s →
    D.inv { s with initialized := r } ∧ D.le s { s with initialized := r }
  pushed : ∀ {entries body}, D.Keeps body good → D.Keeps (withPushed entries body) good
  pushedModule : ∀ {p info table point statements},
    P.code p = some (.yeBlock info table point statements) → info.kind = .b_module →
    D.Keeps (pushAll (P.variableSymbols info)) fun _ _ => True
  callBuiltin : ∀ {fuel evaluate d b args s}, Evaluates D good evaluate → P.builtin d = some b →
    D.inv s → (∀ v ∈ args, good s v) → (b.nil = false → ∀ v ∈ args, v.isNull = false) →
    D.Runs s (callBuiltin P fuel evaluate d b.ptr args) good
  applyBuiltin : ∀ {fuel evaluate d b block args s}, Evaluates D good evaluate →
    P.builtin d = some b → D.inv s → (∀ v ∈ args, good s v) →
    (b.nil = false → ∀ v ∈ args, v.isNull = false) →
    D.Runs s (applyBuiltin P fuel evaluate d b block args) good
  function : ∀ {fuel evaluate node entry parameters}, Evaluates D good evaluate →
    P.code node = some (.yeFunction entry parameters) →
    D.Keeps (yeFunction P fuel evaluate false node entry parameters) good
  functionPointer : ∀ {fuel evaluate node entry parameters}, Evaluates D good evaluate →
    P.code node = some (.yeFunctionPointer entry parameters) →
    D.Keeps (yeFunctionPointer P fuel evaluate false node entry parameters) good
  constructor : ∀ {fuel evaluate f}, Evaluates D good evaluate →
    D.Keeps (unframedCall P fuel evaluate (.fresh P f)) fun _ _ => True

namespace Admits

variable {P : Program} {D : Discipline State} {good : State → YCPValue → Prop} {s : State}
  {fuel : Nat} {evaluate : Evaluator} {cse : Bool}

lemma orVoid_isNull (v : YCPValue) : (orVoid v).isNull = false := by
  cases v <;> rfl

lemma orVoid_good (A : Admits P D good) {v : YCPValue} (hv : good s v) : good s (orVoid v) := by
  unfold orVoid
  split
  · exact A.plain rfl
  · exact hv

/-! ### Expressions -/

lemma yeVariable_keeps (A : Admits P D good) (entry : EntryRef) :
    D.Keeps (yeVariable P fuel cse entry) good := by
  intro s hs
  unfold yeVariable
  split
  · exact A.runs_null hs
  · refine runs_bind (A.entryValue_keeps entry s hs) fun value s' hs' _ hvalue => ?_
    split
    · split
      · exact runs_pure hs' (A.plain rfl)
      · exact runs_pure hs' (A.plain rfl)
    · exact runs_pure hs' hvalue

section Evaluating

variable (A : Admits P D good) (h : Evaluates D good evaluate)
include A h

lemma yeTermLoop_runs {name : Text} {args : List YCPValue} (ps : List CodePtr) (hs : D.inv s)
    (hargs : AllGood good s args) : D.Runs s (yeTermLoop evaluate cse name args ps) good := by
  induction ps generalizing s args with
  | nil => exact runs_pure hs (A.term hargs)
  | cons p ps ih =>
    refine runs_bind (h cse p s hs) fun value s' hs' hle hvalue => ?_
    by_cases hnull : value.isNull
    · rw [if_pos hnull]
      exact A.runs_null hs'
    · rw [if_neg hnull]
      exact ih hs' (allGood_append (A.mono_all hle hargs) hvalue (by simpa using hnull))

lemma yeListLoop_runs {list : List YCPValue} (elements : List CodePtr) (hs : D.inv s)
    (hlist : AllGood good s list) :
    D.Runs s (yeListLoop evaluate cse list elements) good := by
  induction elements generalizing s list with
  | nil => exact runs_pure hs (A.list hlist)
  | cons element elements ih =>
    refine runs_bind (h cse element s hs) fun value s' hs' hle hvalue => ?_
    have hlist' := A.mono_all hle hlist
    by_cases hnull : value.isNull
    · rw [if_pos hnull]
      split
      · exact runs_pure hs' hvalue
      · exact ih hs' (allGood_append hlist' (A.plain rfl) rfl)
    · rw [if_neg hnull]
      exact ih hs' (allGood_append hlist' hvalue (by simpa using hnull))

lemma yeMapLoop_runs {map : List (YCPValue × YCPValue)} (elements : List (CodePtr × CodePtr))
    (hs : D.inv s) (hmap : good s (.map map)) :
    D.Runs s (yeMapLoop P evaluate cse map elements) good := by
  induction elements generalizing s map with
  | nil => exact runs_pure hs hmap
  | cons element elements ih =>
    obtain ⟨k, v⟩ := element
    refine runs_bind (h cse k s hs) fun key s' hs' hle hkey => ?_
    split
    · exact A.runs_null hs'
    split
    · exact runs_pure hs' hkey
    refine runs_bind (h cse v s' hs') fun value s'' hs'' hle' hvalue => ?_
    split
    · exact runs_pure hs'' hvalue
    have hmap' := A.mono hle' (A.mono hle hmap)
    refine runs_bind (A.addEntry hs'' hmap' (A.mono hle' hkey) hvalue) ?_
    intro map' s''' hs''' _ hmap''
    exact ih hs''' hmap''

lemma yeCompare_keeps {left right : CodePtr} {op : UInt8} :
    D.Keeps (yeCompare evaluate cse left op right) good := by
  intro s hs
  unfold yeCompare
  split
  · exact A.runs_null hs
  refine runs_bind (h cse left s hs) fun vl s' hs' _ _ => ?_
  refine runs_bind (h cse right s' hs') fun vr s'' hs'' _ _ => ?_
  unfold compareValues
  split
  · exact A.runs_null hs''
  split
  · split
    · exact runs_pure hs'' (A.plain rfl)
    · exact runs_pure hs'' (A.plain rfl)
  split
  · exact runs_pure hs'' (A.plain rfl)
  split
  · exact runs_pure hs'' (A.plain rfl)
  · exact runs_throw hs''

lemma yeLocale_keeps {singular plural domain : CText} {count : CodePtr} :
    D.Keeps (yeLocale P evaluate cse singular plural count domain) good := by
  intro s hs
  unfold yeLocale
  split
  · exact A.runs_null hs
  refine runs_bind (h false count s hs) fun value s' hs' _ _ => ?_
  split
  · exact runs_pure hs' (A.plain rfl)
  · exact A.runs_null hs'

lemma yePropagate_keeps {target : TypeId} {value : CodePtr} :
    D.Keeps (yePropagate P evaluate cse target value) good := by
  intro s hs
  unfold yePropagate
  split
  · exact A.runs_null hs
  refine runs_bind (h false value s hs) fun v s' hs' _ hv => ?_
  unfold propagate
  split
  · exact runs_pure hs' hv
  split
  · exact runs_throw hs'
  split
  · split
    · exact runs_throw hs'
    · split
      · exact runs_pure hs' hv
      · exact A.runs_null hs'
  · split
    · exact runs_pure hs' hv
    · exact A.runs_null hs'

lemma yeTriple_keeps {expr ifTrue ifFalse : CodePtr} :
    D.Keeps (yeTriple evaluate cse expr ifTrue ifFalse) good := by
  intro s hs
  unfold yeTriple
  split
  · exact A.runs_null hs
  refine runs_bind (h false expr s hs) fun value s' hs' _ _ => ?_
  split
  · exact h false ifFalse s' hs'
  split
  · exact h false ifTrue s' hs'
  · exact h false ifFalse s' hs'
  · exact A.runs_null hs'

lemma yeIs_keeps {type : TypeId} {expr : CodePtr} :
    D.Keeps (yeIs P evaluate cse type expr) good := by
  intro s hs
  refine runs_bind (h cse expr s hs) fun value s' hs' _ hvalue => ?_
  split
  · exact runs_pure hs' hvalue
  obtain heq | ⟨b, heq⟩ := isOfType_eq (P := P) (P.type type) value
  · rw [heq]
    exact runs_throw hs'
  · rw [heq]
    exact runs_pure hs' (A.plain rfl)

lemma yeBracket_keeps {var arg default : CodePtr} :
    D.Keeps (yeBracket evaluate cse var arg default) good := by
  intro s hs
  refine runs_bind (h cse var s hs) fun varValue s' hs' _ hvar => ?_
  split
  · exact A.runs_null hs'
  split
  · exact h cse default s' hs'
  refine runs_bind (h cse arg s' hs') fun argValue s'' hs'' hle harg => ?_
  split
  · exact A.runs_null hs''
  split
  · dsimp only
    split
    · exact h cse default s'' hs''
    · exact runs_pure hs'' (A.bracketLoop (A.mono hle hvar) harg)
  · exact h cse default s'' hs''

/-! ### Builtins -/

lemma yeUnary_keeps {decl : Option DeclId} {arg : CodePtr} :
    D.Keeps (yeUnary P fuel evaluate cse decl arg) good := by
  intro s hs
  unfold yeUnary
  split
  · exact A.runs_null hs
  refine runs_bind (h false arg s hs) fun value s' hs' _ hvalue => ?_
  split
  · exact runs_throw hs'
  split
  · exact runs_throw hs'
  next b hb =>
    split
    · exact A.runs_null hs'
    next hnil =>
      refine A.callBuiltin h hb hs' (by simpa using hvalue) fun hb' => ?_
      simpa [hb'] using hnil

lemma yeBinary_keeps {decl : Option DeclId} {arg1 arg2 : CodePtr} :
    D.Keeps (yeBinary P fuel evaluate cse decl arg1 arg2) good := by
  intro s hs
  unfold yeBinary
  split
  · exact A.runs_null hs
  split
  · exact runs_throw hs
  split
  · exact runs_throw hs
  next b hb =>
    split
    · refine A.callBuiltin h hb hs ?_ fun _ => ?_
      · simpa using ⟨A.plain rfl, A.plain rfl⟩
      · simp [YCPValue.isNull]
    refine runs_bind (h false arg1 s hs) fun value1 s' hs' _ hvalue1 => ?_
    split
    · exact A.runs_null hs'
    next hnil1 =>
      refine runs_bind (h false arg2 s' hs') fun value2 s'' hs'' hle hvalue2 => ?_
      split
      · exact A.runs_null hs''
      next hnil2 =>
        refine A.callBuiltin h hb hs'' ?_ fun hb' => ?_
        · simpa using ⟨A.mono hle hvalue1, hvalue2⟩
        · simp only [hb', isNil, Bool.not_false, Bool.and_true, Bool.or_eq_true, not_or,
            Bool.not_eq_true] at hnil1 hnil2
          simpa using ⟨hnil1.1, hnil2.1⟩

lemma builtinArg_keeps {b : Builtin} {code : CodePtr} :
    D.Keeps (builtinArg P evaluate b code) good := by
  intro s hs
  unfold builtinArg
  split
  · exact runs_pure hs (A.plain rfl)
  split
  next heq => exact runs_pure hs (A.constant heq)
  · exact h false code s hs

lemma builtinArgs_runs {b : Builtin} {args : List YCPValue} (codes : List CodePtr)
    (hs : D.inv s) (hargs : ∀ v ∈ args, good s v)
    (hnil : b.nil = false → ∀ v ∈ args, v.isNull = false) :
    D.Runs s (builtinArgs P evaluate b args codes) fun s' r => ∀ args, r = some args →
      (∀ v ∈ args, good s' v) ∧ (b.nil = false → ∀ v ∈ args, v.isNull = false) := by
  induction codes generalizing s args with
  | nil =>
    refine runs_pure hs fun args' heq => ?_
    rw [← Option.some.inj heq]
    exact ⟨hargs, hnil⟩
  | cons code codes ih =>
    refine runs_bind (A.builtinArg_keeps h s hs) fun value s' hs' hle hvalue => ?_
    split
    · exact runs_pure hs' (by simp)
    next hnot =>
      refine ih hs' ?_ ?_
      · intro v hv
        rcases List.mem_append.mp hv with hv | hv
        · exact A.mono hle (hargs v hv)
        · rw [List.mem_singleton.mp hv]
          exact hvalue
      · intro hb v hv
        rcases List.mem_append.mp hv with hv | hv
        · exact hnil hb v hv
        · rw [List.mem_singleton.mp hv]
          simp only [hb, isNil, Bool.not_false, Bool.and_true, Bool.or_eq_true, not_or,
            Bool.not_eq_true] at hnot
          exact hnot.1

lemma yeBuiltin_keeps {decl : Option DeclId} {block : CodePtr} {parameters : List CodePtr} :
    D.Keeps (yeBuiltin P fuel evaluate cse decl block parameters) good := by
  intro s hs
  unfold yeBuiltin
  split
  · exact A.runs_null hs
  split
  · exact runs_throw hs
  split
  · exact runs_throw hs
  next b hb =>
    refine runs_bind
      (A.builtinArgs_runs h _ hs (List.forall_mem_nil _) fun _ => List.forall_mem_nil _) ?_
    intro r s' hs' _ hr
    split
    · exact A.runs_null hs'
    next args =>
      split
      · exact A.runs_null hs'
      · obtain ⟨hargs, hnil⟩ := hr args rfl
        exact A.applyBuiltin h hb hs' hargs hnil

/-! ### Blocks and statements -/

lemma runStatements_keeps (statements : List CodePtr) :
    D.Keeps (runStatements evaluate statements) good := by
  induction statements with
  | nil =>
    intro s hs
    exact A.runs_null hs
  | cons statement statements ih =>
    intro s hs
    refine runs_bind (h false statement s hs) fun value s' hs' _ hvalue => ?_
    split
    · exact ih s' hs'
    · exact runs_pure hs' hvalue

omit h in
lemma setRunning_keeps (block : CodePtr) (b : Bool) :
    D.Keeps (setRunning block b) fun _ _ => True := by
  intro s hs
  obtain ⟨hinv, hle⟩ := A.running (r := Function.update s.running block b) hs
  exact ⟨hinv, hle, trivial⟩

lemma runBlock_keeps {block : CodePtr} {wasRunning : Bool} {statements : List CodePtr} :
    D.Keeps (runBlock evaluate block wasRunning statements) good := by
  intro s hs
  refine runs_bind (A.setRunning_keeps block true s hs) fun _ s' hs' _ _ => ?_
  refine runs_bind (A.runStatements_keeps h statements s' hs') fun value s'' hs'' _ hvalue => ?_
  refine runs_bind (A.setRunning_keeps block wasRunning s'' hs'') fun _ s''' hs''' hle _ => ?_
  exact runs_pure hs''' (A.mono hle hvalue)

omit h in
lemma blockValue_good {kind : BlockKind} {value : YCPValue} (hvalue : good s value) :
    good s (blockValue kind value) := by
  unfold blockValue
  split
  · split
    · exact A.plain rfl
    · exact A.plain rfl
  · exact hvalue

omit h in
lemma inScope_keeps {info : BlockInfo} {wasRunning : Bool} {body : M YCPValue}
    (hbody : D.Keeps body good) : D.Keeps (inScope P info wasRunning body) good := by
  unfold inScope
  split
  · exact A.pushed hbody
  · exact hbody

lemma yBlock_keeps {block : CodePtr} {info : BlockInfo} {statements : List CodePtr} :
    D.Keeps (yBlock P evaluate cse block info statements) good := by
  intro s hs
  unfold yBlock
  split
  · exact A.runs_null hs
  refine runs_get ?_
  refine runs_bind (A.inScope_keeps (A.runBlock_keeps h) s hs) fun value s' hs' _ hvalue => ?_
  exact runs_pure hs' (A.blockValue_good hvalue)

lemma evaluateFrom_keeps {block : CodePtr} {index : Int32} :
    D.Keeps (evaluateFrom P evaluate block index) good := by
  intro s hs
  unfold evaluateFrom
  split
  next info table point statements heq =>
    refine runs_get ?_
    have hbody : D.Keeps (inScopeFrom P info (s.running block) (runBlock evaluate block
        (s.running block) (statements.drop index.toInt.toNat))) good := by
      intro t ht
      unfold inScopeFrom
      split
      next hmodule =>
        have hkind : info.kind = .b_module := by
          simp only [Bool.and_eq_true, decide_eq_true_eq] at hmodule
          exact hmodule.1
        refine runs_bind (A.pushedModule heq hkind t ht) fun _ t' ht' _ _ => ?_
        exact A.runBlock_keeps h t' ht'
      · exact A.inScope_keeps (A.runBlock_keeps h) t ht
    refine runs_bind (hbody s hs) fun value s' hs' _ hvalue => ?_
    exact runs_pure hs' (A.blockValue_good hvalue)
  · exact runs_throw hs

lemma ysAssign_keeps {entry : EntryRef} {code : CodePtr} :
    D.Keeps (ysAssign P fuel evaluate cse entry code) good := by
  intro s hs
  unfold ysAssign
  split
  · exact A.runs_null hs
  refine runs_bind (h false code s hs) fun value s' hs' _ hvalue => ?_
  refine runs_bind (A.setValue_runs hs' (A.orVoid_good hvalue)) fun _ s'' hs'' _ _ => ?_
  exact A.runs_null hs''

lemma ysBracket_keeps {entry : EntryRef} {arg code : CodePtr} :
    D.Keeps (ysBracket P fuel evaluate cse entry arg code) good := by
  intro s hs
  unfold ysBracket
  split
  · exact A.runs_null hs
  refine runs_bind (h false arg s hs) fun argValue s₁ hs₁ _ harg => ?_
  refine runs_bind (h false code s₁ hs₁) fun newvalue s₂ hs₂ hle₂ hnew => ?_
  refine runs_bind (A.entryValue_keeps entry s₂ hs₂) fun value s₃ hs₃ hle₃ hvalue => ?_
  split
  · dsimp only
    split
    · exact A.runs_null hs₃
    · have harg' := A.mono hle₃ (A.mono hle₂ harg)
      have hnew' := A.orVoid_good (A.mono hle₃ hnew)
      have hresult := A.commit (A.orVoid_good hvalue) harg' hnew' (orVoid_isNull newvalue)
      refine runs_bind (A.setValue_runs hs₃ hresult) fun _ s₄ hs₄ _ _ => ?_
      exact A.runs_null hs₄
  · exact A.runs_null hs₃

lemma evaluateIfAny_keeps {code : CodePtr} : D.Keeps (evaluateIfAny P evaluate cse code) good := by
  intro s hs
  unfold evaluateIfAny
  split
  · exact h cse code s hs
  · exact A.runs_null hs

lemma ysIf_keeps {condition ifTrue ifFalse : CodePtr} :
    D.Keeps (ysIf P evaluate cse condition ifTrue ifFalse) good := by
  intro s hs
  refine runs_bind (h cse condition s hs) fun value s' hs' _ _ => ?_
  split
  · exact A.runs_null hs'
  · exact A.evaluateIfAny_keeps h s' hs'
  · exact A.evaluateIfAny_keeps h s' hs'

omit A in
lemma loopBody_keeps {loop : CodePtr} :
    ∀ body, loopBody P evaluate loop = some body → D.Keeps body good := by
  intro body hbody
  unfold loopBody at hbody
  split at hbody
  · rw [← Option.some.inj hbody]
    exact h false loop
  · cases hbody

lemma ysReturn_keeps {value : CodePtr} : D.Keeps (ysReturn P evaluate cse value) good := by
  intro s hs
  unfold ysReturn
  split
  · exact A.runs_null hs
  refine runs_bind (A.evaluateIfAny_keeps h s hs) fun v s' hs' _ hv => ?_
  split
  · exact runs_pure hs' (A.plain rfl)
  · exact runs_pure hs' hv

lemma ysImport_keeps {name : CText} : D.Keeps (ysImport P fuel evaluate cse name) good := by
  intro s hs
  unfold ysImport
  split
  · exact A.runs_null hs
  split
  · exact A.runs_null hs
  next m _ =>
    have hinit : D.Runs s (initializeModule P fuel evaluate name.text m) (fun _ _ => True) := by
      unfold initializeModule
      refine runs_get ?_
      split
      · exact runs_pure hs trivial
      · obtain ⟨hinv, hle⟩ := A.initialized (r := Function.update s.initialized name.text true) hs
        refine runs_modify hle ?_
        refine runs_bind (h false m.block _ hinv) fun _ s' hs' _ _ => ?_
        split
        · exact runs_pure hs' trivial
        next f _ =>
          refine runs_bind (A.constructor h s' hs') fun _ s'' hs'' _ _ => ?_
          exact runs_pure hs'' trivial
    refine runs_bind hinit fun _ s' hs' _ _ => ?_
    exact A.runs_null hs'

omit h in
lemma dropBreak_good {v : YCPValue} (hv : good s v) : good s (dropBreak v) := by
  unfold dropBreak
  split
  · exact A.plain rfl
  · exact hv

lemma ysSwitch_keeps {condition block : CodePtr} {cases : List (YCPValue × Int32)}
    {defaultcase : Int32} :
    D.Keeps (ysSwitch P evaluate cse condition cases defaultcase block) good := by
  intro s hs
  unfold ysSwitch
  split
  · exact A.runs_null hs
  refine runs_bind (h false condition s hs) fun value s' hs' _ _ => ?_
  split
  · exact A.runs_null hs'
  split
  · refine runs_bind (A.evaluateFrom_keeps h s' hs') fun res s'' hs'' _ hres => ?_
    exact runs_pure hs'' (A.dropBreak_good hres)
  · split
    · refine runs_bind (A.evaluateFrom_keeps h s' hs') fun res s'' hs'' _ hres => ?_
      exact runs_pure hs'' (A.dropBreak_good hres)
    · exact A.runs_null hs'

/-! ### Loops -/

omit h in
lemma ysWhile_keeps {condition : M YCPValue} {loop : Option (M YCPValue)}
    (hcondition : D.Keeps condition good) (hloop : ∀ body, loop = some body → D.Keeps body good)
    (passes : Nat) : D.Keeps (ysWhile condition loop passes) good := by
  induction passes with
  | zero =>
    intro s hs
    exact runs_throw hs
  | succ passes ih =>
    intro s hs
    unfold ysWhile
    refine runs_bind (hcondition s hs) fun bval s' hs' _ _ => ?_
    split
    · exact A.runs_null hs'
    split
    · cases loop with
      | none => exact ih s' hs'
      | some body =>
        refine runs_bind (hloop body rfl s' hs') fun lval s'' hs'' _ hlval => ?_
        split
        · exact ih s'' hs''
        split
        · exact A.runs_null hs''
        split
        · exact runs_pure hs'' hlval
        split
        · exact ih s'' hs''
        · exact runs_pure hs'' hlval
    · exact A.runs_null hs'

omit h in
lemma bodyFirstLoop_keeps {stop : Bool} {condition : M YCPValue} {loop : Option (M YCPValue)}
    (hcondition : D.Keeps condition good) (hloop : ∀ body, loop = some body → D.Keeps body good)
    (passes : Nat) : D.Keeps (bodyFirstLoop stop condition loop passes) good := by
  have hbody : D.Keeps (loop.getD (pure .null)) good := by
    cases loop with
    | none =>
      intro s hs
      exact A.runs_null hs
    | some body => exact hloop body rfl
  induction passes with
  | zero =>
    intro s hs
    exact runs_throw hs
  | succ passes ih =>
    intro s hs
    unfold bodyFirstLoop
    refine runs_bind (hbody s hs) fun lval s' hs' _ hlval => ?_
    split
    · refine runs_bind (hcondition s' hs') fun bval s'' hs'' _ _ => ?_
      split
      · exact A.runs_null hs''
      split
      · split
        · exact A.runs_null hs''
        · exact ih s'' hs''
      · exact A.runs_null hs''
    split
    · exact A.runs_null hs'
    split
    · exact runs_pure hs' hlval
    · exact runs_pure hs' hlval

/-! ### All classes -/

lemma evaluateNode_keeps {ptr : CodePtr} {node : Node CodePtr} (hnode : P.code ptr = some node) :
    D.Keeps (evaluateNode P fuel evaluate cse ptr node) good := by
  have hnull : D.Keeps (pure .null : M YCPValue) good := fun s hs => A.runs_null hs
  have hplain (v : YCPValue) (hv : v.holdsNothing = true) : D.Keeps (pure v : M YCPValue) good :=
    fun s hs => runs_pure hs (A.plain hv)
  cases node with
  | yConst kind value => exact fun s hs => runs_pure hs (A.constant hnode)
  | ycLocale locale domain =>
    cases cse with
    | true => exact hnull
    | false => exact hplain _ rfl
  | ycFunction declaration definition => exact hplain _ rfl
  | yePropagate source target value => exact A.yePropagate_keeps h
  | yeUnary decl arg => exact A.yeUnary_keeps h
  | yeBinary decl arg1 arg2 => exact A.yeBinary_keeps h
  | yeTriple expr ifTrue ifFalse => exact A.yeTriple_keeps h
  | yeCompare left op right => exact A.yeCompare_keeps h
  | yeLocale singular plural count domain => exact A.yeLocale_keeps h
  | yeList elements => exact fun s hs => A.yeListLoop_runs h elements hs (List.forall_mem_nil _)
  | yeMap entries => exact fun s hs => A.yeMapLoop_runs h entries hs A.emptyMap
  | yeTerm name parameters =>
    exact fun s hs => A.yeTermLoop_runs h parameters hs (List.forall_mem_nil _)
  | yeIs type expr => exact A.yeIs_keeps h
  | yeBracket var arg default resultType => exact A.yeBracket_keeps h
  | yeBlock info table point statements => exact A.yBlock_keeps h
  | yeReturn expr => exact hplain _ rfl
  | yeVariable entry => exact A.yeVariable_keeps entry
  | yeBuiltin type decl parameterblock parameters => exact A.yeBuiltin_keeps h
  | yeFunction entry parameters =>
    cases cse with
    | true => exact hnull
    | false => exact A.function h hnode
  | yeReference entry =>
    cases cse with
    | true => exact hnull
    | false => exact hplain _ rfl
  | yeFunctionPointer entry parameters =>
    cases cse with
    | true => exact hnull
    | false => exact A.functionPointer h hnode
  | ysTypedef line name type => exact hnull
  | ysVariable line entry code => exact A.ysAssign_keeps h
  | ysFunction line entry declaration definition => exact hnull
  | ysAssign line entry code => exact A.ysAssign_keeps h
  | ysBracket line entry arg code => exact A.ysBracket_keeps h
  | ysIf line condition ifTrue ifFalse => exact A.ysIf_keeps h
  | ysWhile line condition loop =>
    cases cse with
    | true => exact hnull
    | false => exact A.ysWhile_keeps (h false condition) (loopBody_keeps h) fuel
  | ysDo line condition loop =>
    cases cse with
    | true => exact hnull
    | false => exact A.bodyFirstLoop_keeps (h false condition) (loopBody_keeps h) fuel
  | ysRepeat line condition loop =>
    cases cse with
    | true => exact hnull
    | false => exact A.bodyFirstLoop_keeps (h false condition) (loopBody_keeps h) fuel
  | ysExpression line expr =>
    intro s hs
    refine runs_bind (h cse expr s hs) fun _ s' hs' _ _ => ?_
    exact A.runs_null hs'
  | ysReturn line value => exact A.ysReturn_keeps h
  | ysBreak line => exact hplain _ rfl
  | ysContinue line => exact hplain _ rfl
  | ysTextdomain line domain => exact hnull
  | ysInclude line filename skipped => exact hnull
  | ysFilename line filename => exact hnull
  | ysImport line name => exact A.ysImport_keeps h
  | ysBlock line block => exact h cse block
  | ysSwitch line condition cases defaultcase block => exact A.ysSwitch_keeps h

end Evaluating

/-- Every evaluation respects what the operations respect. -/
theorem evaluates (A : Admits P D good) (fuel : Nat) : Evaluates D good (Interp.evaluate P fuel) := by
  induction fuel with
  | zero =>
    intro cse p s hs
    exact runs_throw hs
  | succ fuel ih =>
    intro cse p s hs
    unfold Interp.evaluate
    split
    · exact runs_throw hs
    next node hnode => exact A.evaluateNode_keeps ih hnode s hs

end Admits

end YastCore.Interp
