import YastCore.Code.Likeness
import YastCore.Interp.Evaluate
import YastCore.Lib.Mirror
import YastCore.Value.Corresponding

/-!
# Programs at other addresses

A program that is loaded again lies at other addresses, with other symbol entries. It is a relocation of
the first one when corresponding addresses hold nodes that are alike. This module has what an evaluation
reads and changes of the state; the states of the two runs stay alike.
-/

namespace YastCore.Interp

open Mirror YCPValue

variable {C : Correspondence} {P P' : Program}

/-! ### Relocated programs -/

/-- The code of a builtin does the same with arguments that correspond. -/
inductive RunLike (C : Correspondence) : BuiltinRun → BuiltinRun → Prop where
  | ret {v v' : YCPValue} (h : Corresponds C v v') : RunLike C (.ret v) (.ret v')
  | crash : RunLike C .crash .crash
  | evaluate {c c' : CodePtr} {next next' : YCPValue → BuiltinRun} (h : C.code c c')
      (hnext : ∀ v v', Corresponds C v v' → RunLike C (next v) (next' v')) :
      RunLike C (.evaluate c next) (.evaluate c' next')
  | value {e e' : EntryRef} {next next' : YCPValue → BuiltinRun} (h : C.entry e e')
      (hnext : ∀ v v', Corresponds C v v' → RunLike C (next v) (next' v')) :
      RunLike C (.value e next) (.value e' next')
  | setValue {e e' : EntryRef} {v v' : YCPValue} {next next' : BuiltinRun} (h : C.entry e e')
      (hv : Corresponds C v v') (hnext : RunLike C next next') :
      RunLike C (.setValue e v next) (.setValue e' v' next')
  | outside {act act' : Nat → YCPValue × Nat} {next next' : YCPValue → BuiltinRun}
      (h : ∀ w, Corresponds C (act w).1 (act' w).1 ∧ (act w).2 = (act' w).2)
      (hnext : ∀ v v', Corresponds C v v' → RunLike C (next v) (next' v')) :
      RunLike C (.outside act next) (.outside act' next')

/-- A function of C++ and its counterpart. -/
def PtrLike (C : Correspondence) (ptr ptr' : List YCPValue → BuiltinRun) : Prop :=
  ∀ args args', List.Forall₂ (Corresponds C) args args' → RunLike C (ptr args) (ptr' args')

structure BuiltinLike (C : Correspondence) (b b' : Builtin) : Prop where
  nil : b.nil = b'.nil
  noeval : b.noeval = b'.noeval
  parameters : b.parameters = b'.parameters
  ptr : Option.Rel (PtrLike C) b.ptr b'.ptr
  handler : Option.Rel (Option.Rel (PtrLike C)) b.handler b'.handler

/-- A symbol entry has the same category and type. -/
structure SymbolLike (C : Correspondence) (P P' : Program) (e e' : EntryRef) : Prop where
  entry : C.entry e e'
  category : (P.symbol e).category = (P'.symbol e').category
  type : (P.symbol e).type = (P'.symbol e').type

/-- An entry that can be called, with its function. -/
structure FunctionLike (C : Correspondence) (P P' : Program) (f f' : EntryRef) : Prop where
  type : (P.symbol f).type = (P'.symbol f').type
  code : C.code (P.symbol f).code (P'.symbol f').code

structure ModuleLike (C : Correspondence) (P P' : Program) (m m' : Module) : Prop where
  block : C.code m.block m'.block
  constructor : Option.Rel (FunctionLike C P P') m.constructor m'.constructor

/-- What nodes at corresponding addresses may differ in. -/
def likeness (C : Correspondence) (P P' : Program) : Likeness where
  entry := C.entry
  value := Corresponds C
  type t t' := P.type t = P'.type t'
  decl d d' := Option.Rel (BuiltinLike C) (P.builtin d) (P'.builtin d')
  block info info' := info.kind = info'.kind ∧ List.Forall₂ C.entry (Program.symbols info) (Program.symbols info')

/-- What the programs have around their code: symbols, functions, modules and texts. -/
structure Surroundings (C : Correspondence) (P P' : Program) : Prop where
  codeType : ∀ {p p'}, C.code p p' → P.codeType p = P'.codeType p'
  symbol : ∀ {e e'}, C.entry e e' → SymbolLike C P P' e e'
  function : ∀ {e e'}, C.entry e e' →
    Option.Rel (FunctionLike C P P') (P.createFunctionCall e) (P'.createFunctionCall e')
  module : ∀ name, Option.Rel (ModuleLike C P P') (P.module name) (P'.module name)
  dgettext : P.dgettext = P'.dgettext
  dngettext : P.dngettext = P'.dngettext
  recursionLimit : P.recursionLimit = P'.recursionLimit

/-- `P'` is `P` with its code and its symbols elsewhere. -/
structure Relocates (C : Correspondence) (P P' : Program) : Prop extends Surroundings C P P' where
  node : ∀ {p p'}, C.code p p' → Option.Rel (Node.Like C.code (likeness C P P')) (P.code p) (P'.code p')

/-! ### States -/

structure CallLike (C : Correspondence) (P P' : Program) (call call' : FunctionCall) : Prop where
  sentry : FunctionLike C P P' call.sentry call'.sentry
  parameters : List.Forall₂ (Corresponds C) call.parameters call'.parameters

/-- A frame of the backtrace. -/
def FrameLike (C : Correspondence) (f f' : CodePtr × List YCPValue) : Prop :=
  C.code f.1 f'.1 ∧ List.Forall₂ (Corresponds C) f.2 f'.2

/-- The states agree on everything that an evaluation reads. -/
structure StateLike (C : Correspondence) (P P' : Program) (s s' : State) : Prop where
  value : ∀ e e', C.entry e e' → Corresponds C (s.value e) (s'.value e')
  stack : ∀ e e', C.entry e e' → Option.Rel (List.Forall₂ (Corresponds C)) (s.stack e) (s'.stack e')
  running : ∀ b b', C.code b b' → s.running b = s'.running b'
  functioncall : ∀ n n', C.code n n' → Option.Rel (CallLike C P P') (s.functioncall n) (s'.functioncall n')
  backtrace : List.Forall₂ (FrameLike C) s.backtrace s'.backtrace
  initialized : s.initialized = s'.initialized
  world : s.world = s'.world

/-- Computations that run alike and yield values that correspond. -/
abbrev Alike (C : Correspondence) (P P' : Program) (x x' : M YCPValue) : Prop :=
  Mirrors (StateLike C P P') (Corresponds C) x x'

section States

variable {s s' : State}

lemma forall₂_getD {α β : Type} {R : α → β → Prop} {o : Option (List α)} {o' : Option (List β)}
    (h : Option.Rel (List.Forall₂ R) o o') : List.Forall₂ R (o.getD []) (o'.getD []) := by
  cases h with
  | none => exact .nil
  | some hl => exact hl

lemma StateLike.assign (h : StateLike C P P' s s') {e e' : EntryRef} (he : C.entry e e') {v v' : YCPValue}
    (hv : Corresponds C v v') :
    StateLike C P P' { s with value := Function.update s.value e v }
      { s' with value := Function.update s'.value e' v' } :=
  { h with value := update_related C.entry_unique h.value he hv }

lemma StateLike.push (h : StateLike C P P' s s') {e e' : EntryRef} (he : C.entry e e') :
    StateLike C P P' { s with stack := Function.update s.stack e (some (s.value e :: (s.stack e).getD [])) }
      { s' with stack := Function.update s'.stack e' (some (s'.value e' :: (s'.stack e').getD [])) } := by
  have hrest := forall₂_getD (h.stack e e' he)
  exact { h with stack := update_related C.entry_unique h.stack he (.some (.cons (h.value e e' he) hrest)) }

lemma StateLike.pop (h : StateLike C P P' s s') {e e' : EntryRef} (he : C.entry e e') {v v' : YCPValue}
    (hv : Corresponds C v v') {l l' : List YCPValue} (hl : List.Forall₂ (Corresponds C) l l') :
    StateLike C P P'
      { s with value := Function.update s.value e v, stack := Function.update s.stack e (some l) }
      { s' with value := Function.update s'.value e' v', stack := Function.update s'.stack e' (some l') } :=
  { h with
    value := update_related C.entry_unique h.value he hv
    stack := update_related C.entry_unique h.stack he (.some hl) }

lemma StateLike.run (h : StateLike C P P' s s') {block block' : CodePtr} (hblock : C.code block block') (b : Bool) :
    StateLike C P P' { s with running := Function.update s.running block b }
      { s' with running := Function.update s'.running block' b } :=
  { h with running := update_related (Q := Eq) C.code_unique h.running hblock rfl }

lemma StateLike.call (h : StateLike C P P' s s') {node node' : CodePtr} (hnode : C.code node node')
    {call call' : FunctionCall} (hcall : CallLike C P P' call call') :
    StateLike C P P' { s with functioncall := Function.update s.functioncall node (some call) }
      { s' with functioncall := Function.update s'.functioncall node' (some call') } :=
  { h with functioncall := update_related C.code_unique h.functioncall hnode (.some hcall) }

end States

/-! ### Symbol entries -/

namespace Relocates

variable (H : Relocates C P P') {e e' : EntryRef} {v v' : YCPValue} {fuel : Nat}
include H

lemma entryValue (he : C.entry e e') : Alike C P P' (Interp.entryValue P fuel e) (Interp.entryValue P' fuel e') := by
  induction fuel generalizing e e' with
  | zero => exact mirrors_throw
  | succ fuel ih =>
    intro s s' hs
    have hv := hs.value e e' he
    unfold Interp.entryValue
    refine ends_get ?_
    rw [(H.symbol he).category]
    split
    · generalize s.value e = v at hv
      generalize s'.value e' = v' at hv
      cases hv with
      | reference ht => exact ih ht s s' hs
      | _ => exact ends_pure hs (by constructor <;> assumption)
    · exact ends_pure hs hv

omit H in
lemma assign (he : C.entry e e') (hv : Corresponds C v v') : Alike C P P' (Interp.assign e v) (Interp.assign e' v') :=
  mirrors_modify (fun _ _ hs => hs.assign he hv) (mirrors_pure hv)

lemma setValue (he : C.entry e e') (hv : Corresponds C v v') :
    Alike C P P' (Interp.setValue P fuel e v) (Interp.setValue P' fuel e' v') := by
  induction fuel generalizing e e' with
  | zero => exact mirrors_throw
  | succ fuel ih =>
    unfold Interp.setValue
    rw [(H.symbol he).category, hv.isNull_eq]
    split
    · cases hv with
      | reference ht => exact assign he (.reference ht)
      | _ =>
        intro s s' hs
        have ht := hs.value e e' he
        refine ends_get ?_
        generalize s.value e = t at ht
        generalize s'.value e' = t' at ht
        cases ht with
        | reference ht => exact ih ht s s' hs
        | _ => exact ends_pure hs .null
    · exact assign he (.ite .void hv)

end Relocates

end YastCore.Interp
