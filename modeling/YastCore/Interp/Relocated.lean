import YastCore.Interp.Relocation

/-!
# Evaluation at other addresses

A relocated program does what the program does, class by class: expressions, builtins, calls, blocks and
statements end alike when their parts do, and by the fuel so does every evaluation.
-/

namespace YastCore.Interp

open Mirror YCPValue

variable {C : Correspondence} {P P' : Program}

/-- Code at corresponding addresses is evaluated alike. -/
def EvaluateAlike (C : Correspondence) (P P' : Program) (evaluate evaluate' : Evaluator) : Prop :=
  ∀ cse p p', C.code p p' → Alike C P P' (evaluate cse p) (evaluate' cse p')

namespace Relocates

section Parts

variable (H : Relocates C P P') {fuel : Nat} {evaluate evaluate' : Evaluator} {cse : Bool} {v v' w w' : YCPValue}
  {args args' : List YCPValue} {p p' q q' r r' : CodePtr} {ps ps' : List CodePtr} {e e' f f' : EntryRef}
  {es es' : List EntryRef}

/-! ### Recursion stacks -/

/-- Steps of which only the states matter. -/
abbrev StepAlike (C : Correspondence) (P P' : Program) (x x' : M Unit) : Prop :=
  Mirrors (StateLike C P P') (fun _ _ => True) x x'

lemma pushAll (he : List.Forall₂ C.entry es es') : StepAlike C P P' (Interp.pushAll es) (Interp.pushAll es') := by
  induction he with
  | nil => exact mirrors_pure trivial
  | cons he _ ih => exact mirrors_modify (fun _ _ hs => hs.push he) ih

lemma pop (he : C.entry e e') : StepAlike C P P' (Interp.pop e) (Interp.pop e') := by
  intro s s' hs
  have hstack := hs.stack e e' he
  unfold Interp.pop
  refine ends_get ?_
  generalize s.stack e = l at hstack
  generalize s'.stack e' = l' at hstack
  cases hstack with
  | none => exact ends_pure hs trivial
  | some hl =>
    cases hl with
    | nil => exact ends_throw hs
    | cons hv hl => exact ends_modify (ends_pure (hs.pop he hv hl) trivial)

lemma popAll (he : List.Forall₂ C.entry es es') : StepAlike C P P' (Interp.popAll es) (Interp.popAll es') := by
  induction he with
  | nil => exact mirrors_pure trivial
  | cons he _ ih => exact (pop he).bind fun _ _ _ => ih

lemma withPushed (he : List.Forall₂ C.entry es es') {body body' : M YCPValue} (hbody : Alike C P P' body body') :
    Alike C P P' (Interp.withPushed es body) (Interp.withPushed es' body') :=
  (pushAll he).bind fun _ _ _ => hbody.bind fun _ _ hv => (popAll he).bind fun _ _ _ => mirrors_pure hv

include H

lemma variableSymbols {info info' : BlockInfo}
    (hinfo : List.Forall₂ C.entry (Program.symbols info) (Program.symbols info')) :
    List.Forall₂ C.entry (P.variableSymbols info) (P'.variableSymbols info') := by
  unfold Program.variableSymbols
  generalize Program.symbols info = es at hinfo
  generalize Program.symbols info' = es' at hinfo
  induction hinfo with
  | nil => exact .nil
  | cons he _ ih =>
    rw [List.filter_cons, List.filter_cons, (H.symbol he).category]
    split
    · exact .cons he ih
    · exact ih

lemma formals (hp : C.code p p') : List.Forall₂ C.entry (P.formals p) (P'.formals p') := by
  have hnode := H.node hp
  unfold Program.formals
  generalize P.code p = n at hnode
  generalize P'.code p' = n' at hnode
  cases hnode with
  | none => exact .nil
  | some hn =>
    cases hn with
    | yeBlock hinfo _ => exact hinfo.2
    | _ => exact .nil

lemma blockVariables (hp : C.code p p') :
    List.Forall₂ C.entry (Interp.blockVariables P p) (Interp.blockVariables P' p') := by
  have hnode := H.node hp
  unfold Interp.blockVariables
  generalize P.code p = n at hnode
  generalize P'.code p' = n' at hnode
  cases hnode with
  | none => exact .nil
  | some hn =>
    cases hn with
    | yeBlock hinfo _ => exact H.variableSymbols hinfo.2
    | _ => exact .nil

lemma isConstant_eq (hp : C.code p p') : P.isConstant p = P'.isConstant p' := by
  have hnode := H.node hp
  unfold Program.isConstant
  generalize P.code p = n at hnode
  generalize P'.code p' = n' at hnode
  cases hnode with
  | none => rfl
  | some hn => cases hn <;> rfl

lemma isBlock_eq (hp : C.code p p') : P.isBlock p = P'.isBlock p' := by
  have hnode := H.node hp
  unfold Program.isBlock
  generalize P.code p = n at hnode
  generalize P'.code p' = n' at hnode
  cases hnode with
  | none => rfl
  | some hn => cases hn <;> rfl

lemma isFunction_eq (hp : C.code p p') : P.isFunction p = P'.isFunction p' := by
  have hnode := H.node hp
  unfold Program.isFunction
  generalize P.code p = n at hnode
  generalize P'.code p' = n' at hnode
  cases hnode with
  | none => rfl
  | some hn => cases hn <;> rfl

/-! ### Expressions -/

lemma yeVariable (he : C.entry e e') :
    Alike C P P' (Interp.yeVariable P fuel cse e) (Interp.yeVariable P' fuel cse e') := by
  unfold Interp.yeVariable
  refine mirrors_ite Iff.rfl (fun _ => mirrors_pure .null) fun _ => ?_
  refine (H.entryValue he).bind fun v v' hv => ?_
  rw [hv.isNull_eq, (H.symbol he).category]
  refine mirrors_ite Iff.rfl (fun _ => ?_) fun _ => mirrors_pure hv
  exact mirrors_ite Iff.rfl (fun _ => mirrors_pure (.reference he)) fun _ => mirrors_pure .void

omit H in
lemma addEntry {m m' : List (YCPValue × YCPValue)} (hm : List.Forall₂ (EntryCorresponds C) m m')
    (hkey : Corresponds C v v') (hvalue : Corresponds C w w') :
    Mirrors (StateLike C P P') (List.Forall₂ (EntryCorresponds C)) (Interp.addEntry m v w)
      (Interp.addEntry m' v' w') := by
  unfold Interp.addEntry
  refine mirrors_modify (fun _ _ hs => { hs with }) ?_
  have hadd := hkey.mapAdd hvalue hm
  generalize YCPValue.mapAdd m v w = r at hadd
  generalize YCPValue.mapAdd m' v' w' = r' at hadd
  cases hadd with
  | none => exact mirrors_throw
  | some hr => exact mirrors_pure hr

omit H in
lemma isNil_eq (h : Corresponds C v v') : isNil v = isNil v' := by
  rw [isNil, isNil, h.isNull_eq, h.isVoid_eq]

omit H in
lemma compareValues (op : CompareOp) (h : Corresponds C v v') (hw : Corresponds C w w') :
    Alike C P P' (Interp.compareValues op v w) (Interp.compareValues op v' w') := by
  unfold Interp.compareValues
  rw [isNil_eq h, isNil_eq hw, h.compare_eq hw]
  refine mirrors_ite Iff.rfl (fun _ => mirrors_pure .null) fun _ => ?_
  refine mirrors_ite Iff.rfl (fun _ => ?_) fun _ => ?_
  · exact mirrors_ite Iff.rfl (fun _ => mirrors_pure (.boolean _)) fun _ => mirrors_pure (.boolean _)
  refine mirrors_ite Iff.rfl (fun _ => mirrors_pure (.boolean _)) fun _ => ?_
  cases YCPValue.compare v' w' with
  | none => exact mirrors_throw
  | some order => exact mirrors_pure (.boolean _)

lemma propagate (toType : YType) (h : Corresponds C v v') :
    Alike C P P' (Interp.propagate P toType v) (Interp.propagate P' toType v') := by
  have hcan := h.canPropagate_eq (fun _ _ hc => H.isFunction_eq hc) toType
  unfold Interp.propagate
  rw [isNil_eq h, h.valuetype_eq]
  refine mirrors_ite Iff.rfl (fun _ => mirrors_pure h) fun _ => ?_
  refine mirrors_ite Iff.rfl (fun _ => mirrors_throw) fun _ => ?_
  cases h with
  | reference he =>
    dsimp only
    rw [(H.symbol he).type, hcan]
    cases YType.matchType toType (P'.symbol _).type with
    | none => exact mirrors_throw
    | some n => exact mirrors_ite Iff.rfl (fun _ => mirrors_pure (.reference he)) fun _ => mirrors_pure .null
  | _ =>
    dsimp only
    rw [hcan]
    exact mirrors_ite Iff.rfl (fun _ => mirrors_pure (by constructor <;> assumption)) fun _ => mirrors_pure .null

lemma isOfType (type : YType) (h : Corresponds C v v') :
    Alike C P P' (Interp.isOfType P type v) (Interp.isOfType P' type v') := by
  have hmatch := h.matchvalue_eq type
  unfold Interp.isOfType
  cases h with
  | code hc =>
    dsimp only
    rw [H.isFunction_eq hc, H.codeType hc]
    refine mirrors_ite Iff.rfl (fun _ => ?_) fun _ => ?_
    · cases (P'.codeType _).matchType type with
      | none => exact mirrors_throw
      | some n => exact mirrors_pure (.boolean _)
    · cases (YType.blockT (P'.codeType _) unqualified).matchType type with
      | none => exact mirrors_throw
      | some n => exact mirrors_pure (.boolean _)
  | reference he =>
    dsimp only
    rw [(H.symbol he).type]
    cases (P'.symbol _).type.matchType type with
    | none => exact mirrors_throw
    | some n => exact mirrors_pure (.boolean _)
  | _ =>
    dsimp only
    rw [hmatch]
    exact mirrors_pure (.boolean _)

end Parts

/-! ### Expressions with parts -/

section Evaluating

variable (H : Relocates C P P') {fuel : Nat} {evaluate evaluate' : Evaluator} {cse : Bool} {v v' : YCPValue}
  {args args' : List YCPValue} {p p' q q' r r' : CodePtr} {ps ps' : List CodePtr} {e e' f f' : EntryRef}
  {b b' : Builtin} {d d' : DeclId} {decl decl' : Option DeclId} {call call' : FunctionCall}
  (E : EvaluateAlike C P P' evaluate evaluate')
include E

lemma yeTermLoop (name : Text) (hargs : List.Forall₂ (Corresponds C) args args') (hps : List.Forall₂ C.code ps ps') :
    Alike C P P' (Interp.yeTermLoop evaluate cse name args ps) (Interp.yeTermLoop evaluate' cse name args' ps') := by
  induction hps generalizing args args' with
  | nil => exact mirrors_pure (.term name hargs)
  | cons hp _ ih =>
    refine (E cse _ _ hp).bind fun v v' hv => ?_
    rw [hv.isNull_eq]
    refine mirrors_ite Iff.rfl (fun _ => mirrors_pure .null) fun _ => ?_
    exact ih (List.rel_append hargs (.cons hv .nil))

lemma yeListLoop (hargs : List.Forall₂ (Corresponds C) args args') (hps : List.Forall₂ C.code ps ps') :
    Alike C P P' (Interp.yeListLoop evaluate cse args ps) (Interp.yeListLoop evaluate' cse args' ps') := by
  induction hps generalizing args args' with
  | nil => exact mirrors_pure (.list hargs)
  | cons hp _ ih =>
    refine (E cse _ _ hp).bind fun v v' hv => ?_
    rw [hv.isNull_eq]
    refine mirrors_ite Iff.rfl (fun _ => ?_) fun _ => ih (List.rel_append hargs (.cons hv .nil))
    exact mirrors_ite Iff.rfl (fun _ => mirrors_pure hv) fun _ => ih (List.rel_append hargs (.cons .void .nil))

lemma yeCompare (op : UInt8) (hp : C.code p p') (hq : C.code q q') :
    Alike C P P' (Interp.yeCompare evaluate cse p op q) (Interp.yeCompare evaluate' cse p' op q') := by
  refine mirrors_ite Iff.rfl (fun _ => mirrors_pure .null) fun _ => ?_
  exact (E cse _ _ hp).bind fun _ _ hv => (E cse _ _ hq).bind fun _ _ hw => compareValues _ hv hw

lemma yeTriple (hp : C.code p p') (hq : C.code q q') (hr : C.code r r') :
    Alike C P P' (Interp.yeTriple evaluate cse p q r) (Interp.yeTriple evaluate' cse p' q' r') := by
  refine mirrors_ite Iff.rfl (fun _ => mirrors_pure .null) fun _ => ?_
  refine (E false _ _ hp).bind fun v v' hv => ?_
  rw [isNil_eq hv]
  refine mirrors_ite Iff.rfl (fun _ => E false _ _ hr) fun _ => ?_
  cases hv with
  | boolean b =>
    cases b with
    | true => exact E false _ _ hq
    | false => exact E false _ _ hr
  | _ => exact mirrors_pure .null

lemma yeBracket (hp : C.code p p') (hq : C.code q q') (hr : C.code r r') :
    Alike C P P' (Interp.yeBracket evaluate cse p q r) (Interp.yeBracket evaluate' cse p' q' r') := by
  refine (E cse _ _ hp).bind fun v v' hv => ?_
  rw [hv.isNull_eq, isNil_eq hv]
  refine mirrors_ite Iff.rfl (fun _ => mirrors_pure .null) fun _ => ?_
  refine mirrors_ite Iff.rfl (fun _ => E cse _ _ hr) fun _ => ?_
  refine (E cse _ _ hq).bind fun w w' hw => ?_
  rw [hw.isNull_eq]
  refine mirrors_ite Iff.rfl (fun _ => mirrors_pure .null) fun _ => ?_
  cases hw with
  | list hl =>
    have hresult := hv.bracketLoop hl
    dsimp only
    rw [hresult.isNull_eq]
    exact mirrors_ite Iff.rfl (fun _ => E cse _ _ hr) fun _ => mirrors_pure hresult
  | _ => exact E cse _ _ hr

/-! ### Parameters and statements -/

lemma evaluateParameters (hargs : List.Forall₂ (Corresponds C) args args') (hps : List.Forall₂ C.code ps ps') :
    Mirrors (StateLike C P P') (Option.Rel (List.Forall₂ (Corresponds C)))
      (Interp.evaluateParameters evaluate args ps) (Interp.evaluateParameters evaluate' args' ps') := by
  induction hps generalizing args args' with
  | nil => exact mirrors_pure (.some hargs)
  | cons hp _ ih =>
    refine (E false _ _ hp).bind fun v v' hv => ?_
    rw [hv.isNull_eq]
    refine mirrors_ite Iff.rfl (fun _ => mirrors_pure .none) fun _ => ?_
    exact ih (List.rel_append hargs (.cons hv .nil))

lemma runStatements (hps : List.Forall₂ C.code ps ps') :
    Alike C P P' (Interp.runStatements evaluate ps) (Interp.runStatements evaluate' ps') := by
  induction hps with
  | nil => exact mirrors_pure .null
  | cons hp _ ih =>
    refine (E false _ _ hp).bind fun v v' hv => ?_
    rw [hv.isNull_eq]
    exact mirrors_ite Iff.rfl (fun _ => ih) fun _ => mirrors_pure hv

lemma runBlock (hp : C.code p p') (wasRunning : Bool) (hps : List.Forall₂ C.code ps ps') :
    Alike C P P' (Interp.runBlock evaluate p wasRunning ps) (Interp.runBlock evaluate' p' wasRunning ps') := by
  refine mirrors_modify (fun _ _ hs => hs.run hp true) ?_
  refine (runStatements E hps).bind fun v v' hv => ?_
  exact mirrors_modify (fun _ _ hs => hs.run hp wasRunning) (mirrors_pure hv)

include H

lemma yeMapLoop {m m' : List (YCPValue × YCPValue)} (hm : List.Forall₂ (EntryCorresponds C) m m')
    {es es' : List (CodePtr × CodePtr)}
    (hes : List.Forall₂ (fun e e' => C.code e.1 e'.1 ∧ C.code e.2 e'.2) es es') :
    Alike C P P' (Interp.yeMapLoop P evaluate cse m es) (Interp.yeMapLoop P' evaluate' cse m' es') := by
  induction hes generalizing m m' with
  | nil => exact mirrors_pure (.map hm)
  | cons he _ ih =>
    refine (E cse _ _ he.1).bind fun v v' hv => ?_
    rw [hv.isNull_eq, H.isConstant_eq he.1]
    refine mirrors_ite Iff.rfl (fun _ => mirrors_pure .null) fun _ => ?_
    refine mirrors_ite Iff.rfl (fun _ => mirrors_pure hv) fun _ => ?_
    refine (E cse _ _ he.2).bind fun w w' hw => ?_
    rw [hw.isNull_eq]
    refine mirrors_ite Iff.rfl (fun _ => mirrors_pure hw) fun _ => ?_
    exact (addEntry hm hv hw).bind fun _ _ hm => ih hm

lemma yeLocale (singular plural domain : CText) (hp : C.code p p') :
    Alike C P P' (Interp.yeLocale P evaluate cse singular plural p domain)
      (Interp.yeLocale P' evaluate' cse singular plural p' domain) := by
  refine mirrors_ite Iff.rfl (fun _ => mirrors_pure .null) fun _ => ?_
  refine (E false _ _ hp).bind fun v v' hv => ?_
  cases hv with
  | integer n =>
    dsimp only
    rw [H.dngettext]
    exact mirrors_pure (.string _)
  | _ => exact mirrors_pure .null

lemma yePropagate {t t' : TypeId} (ht : P.type t = P'.type t') (hp : C.code p p') :
    Alike C P P' (Interp.yePropagate P evaluate cse t p) (Interp.yePropagate P' evaluate' cse t' p') := by
  refine mirrors_ite Iff.rfl (fun _ => mirrors_pure .null) fun _ => ?_
  refine (E false _ _ hp).bind fun v v' hv => ?_
  rw [ht]
  exact H.propagate _ hv

lemma yeIs {t t' : TypeId} (ht : P.type t = P'.type t') (hp : C.code p p') :
    Alike C P P' (Interp.yeIs P evaluate cse t p) (Interp.yeIs P' evaluate' cse t' p') := by
  refine (E cse _ _ hp).bind fun v v' hv => ?_
  rw [hv.isNull_eq, ht]
  exact mirrors_ite Iff.rfl (fun _ => mirrors_pure hv) fun _ => H.isOfType _ hv

/-! ### Builtins -/

lemma runBuiltin {run run' : BuiltinRun} (hrun : RunLike C run run') :
    Alike C P P' (Interp.runBuiltin P fuel evaluate run) (Interp.runBuiltin P' fuel evaluate' run') := by
  induction hrun with
  | ret hv => exact mirrors_pure hv
  | crash => exact mirrors_throw
  | evaluate hc _ ih => exact (E false _ _ hc).bind fun _ _ hv => ih _ _ hv
  | value he _ ih => exact (H.entryValue he).bind fun _ _ hv => ih _ _ hv
  | setValue he hv _ ih => exact (H.setValue he hv).bind fun _ _ _ => ih
  | outside hact _ ih =>
    intro s s' hs
    obtain ⟨hvalue, hworld⟩ := hact s.world
    refine ends_get (ends_modify ?_)
    rw [← hs.world]
    refine ih _ _ hvalue _ _ ?_
    exact { hs with world := hworld }

lemma callBuiltin {ptr ptr' : Option (List YCPValue → BuiltinRun)} (hptr : Option.Rel (PtrLike C) ptr ptr')
    (hargs : List.Forall₂ (Corresponds C) args args') :
    Alike C P P' (Interp.callBuiltin P fuel evaluate d ptr args)
      (Interp.callBuiltin P' fuel evaluate' d' ptr' args') := by
  cases hptr with
  | none => exact mirrors_throw
  | some h => exact mirrors_modify (fun _ _ hs => { hs with }) (H.runBuiltin E (h _ _ hargs))

lemma yeUnary (hdecl : Option.Rel (fun d d' => Option.Rel (BuiltinLike C) (P.builtin d) (P'.builtin d')) decl decl')
    (hp : C.code p p') :
    Alike C P P' (Interp.yeUnary P fuel evaluate cse decl p) (Interp.yeUnary P' fuel evaluate' cse decl' p') := by
  refine mirrors_ite Iff.rfl (fun _ => mirrors_pure .null) fun _ => ?_
  refine (E false _ _ hp).bind fun v v' hv => ?_
  cases hdecl with
  | none => exact mirrors_throw
  | @some d d' hb =>
    dsimp only
    generalize P.builtin d = b at hb
    generalize P'.builtin d' = b' at hb
    cases hb with
    | none => exact mirrors_throw
    | some hb =>
      dsimp only
      rw [hv.isNull_eq, hb.nil]
      exact mirrors_ite Iff.rfl (fun _ => mirrors_pure .null) fun _ => H.callBuiltin E hb.ptr (.cons hv .nil)

lemma yeBinary (hdecl : Option.Rel (fun d d' => Option.Rel (BuiltinLike C) (P.builtin d) (P'.builtin d')) decl decl')
    (hp : C.code p p') (hq : C.code q q') :
    Alike C P P' (Interp.yeBinary P fuel evaluate cse decl p q)
      (Interp.yeBinary P' fuel evaluate' cse decl' p' q') := by
  refine mirrors_ite Iff.rfl (fun _ => mirrors_pure .null) fun _ => ?_
  cases hdecl with
  | none => exact mirrors_throw
  | @some d d' hb =>
    dsimp only
    generalize P.builtin d = b at hb
    generalize P'.builtin d' = b' at hb
    cases hb with
    | none => exact mirrors_throw
    | some hb =>
      dsimp only
      rw [hb.nil, hb.noeval]
      refine mirrors_ite Iff.rfl (fun _ => ?_) fun _ => ?_
      · exact H.callBuiltin E hb.ptr (.cons (.code hp) (.cons (.code hq) .nil))
      refine (E false _ _ hp).bind fun v v' hv => ?_
      rw [isNil_eq hv]
      refine mirrors_ite Iff.rfl (fun _ => mirrors_pure .null) fun _ => ?_
      refine (E false _ _ hq).bind fun w w' hw => ?_
      rw [isNil_eq hw]
      refine mirrors_ite Iff.rfl (fun _ => mirrors_pure .null) fun _ => ?_
      exact H.callBuiltin E hb.ptr (.cons hv (.cons hw .nil))

lemma builtinArg (hb : BuiltinLike C b b') (hp : C.code p p') :
    Alike C P P' (Interp.builtinArg P evaluate b p) (Interp.builtinArg P' evaluate' b' p') := by
  have hnode := H.node hp
  unfold Interp.builtinArg
  rw [H.isBlock_eq hp, hb.noeval]
  refine mirrors_ite Iff.rfl (fun _ => mirrors_pure (.code hp)) fun _ => ?_
  generalize P.code p = n at hnode
  generalize P'.code p' = n' at hnode
  cases hnode with
  | none => exact E false _ _ hp
  | some hn =>
    cases hn with
    | @yConst kind v v' hv =>
      cases kind with
      | ycEntry => exact mirrors_pure hv
      | _ => exact E false _ _ hp
    | _ => exact E false _ _ hp

lemma builtinArgs (hb : BuiltinLike C b b') (hargs : List.Forall₂ (Corresponds C) args args')
    (hps : List.Forall₂ C.code ps ps') :
    Mirrors (StateLike C P P') (Option.Rel (List.Forall₂ (Corresponds C))) (Interp.builtinArgs P evaluate b args ps)
      (Interp.builtinArgs P' evaluate' b' args' ps') := by
  induction hps generalizing args args' with
  | nil => exact mirrors_pure (.some hargs)
  | cons hp _ ih =>
    refine (H.builtinArg E hb hp).bind fun v v' hv => ?_
    rw [isNil_eq hv, hb.nil]
    refine mirrors_ite Iff.rfl (fun _ => mirrors_pure .none) fun _ => ?_
    exact ih (List.rel_append hargs (.cons hv .nil))

omit E H in
lemma collectWildcard (parameters : List YType) (hargs : List.Forall₂ (Corresponds C) args args') :
    List.Forall₂ (Corresponds C) (Interp.collectWildcard parameters args)
      (Interp.collectWildcard parameters args') := by
  unfold Interp.collectWildcard
  rw [hargs.length_eq]
  split
  next n _ =>
    exact List.rel_append (List.forall₂_take n hargs) (.cons (.list (List.forall₂_drop n hargs)) .nil)
  · exact hargs

omit E H in
lemma passedArgs (count : Nat) (hargs : List.Forall₂ (Corresponds C) args args') :
    List.Forall₂ (Corresponds C) (Interp.passedArgs count args) (Interp.passedArgs count args') := by
  unfold Interp.passedArgs
  rw [hargs.length_eq]
  exact List.forall₂_take count (List.rel_append hargs (Corresponds.replicate .null _))

lemma applyBuiltin (hb : BuiltinLike C b b') (hp : C.code p p') (hargs : List.Forall₂ (Corresponds C) args args') :
    Alike C P P' (Interp.applyBuiltin P fuel evaluate d b p args)
      (Interp.applyBuiltin P' fuel evaluate' d' b' p' args') := by
  have hptr := hb.ptr
  have hhandler := hb.handler
  have hall := collectWildcard b'.parameters hargs
  unfold Interp.applyBuiltin
  rw [hb.parameters]
  generalize b.ptr = ptr at hptr
  generalize b'.ptr = ptr' at hptr
  generalize b.handler = handler at hhandler
  generalize b'.handler = handler' at hhandler
  cases hptr with
  | none => exact mirrors_pure .null
  | some hptr =>
    cases hhandler with
    | none =>
      refine withPushed (H.blockVariables hp) ?_
      refine mirrors_ite Iff.rfl (fun _ => ?_) fun _ => mirrors_pure .null
      exact H.callBuiltin E (.some hptr) (passedArgs _ hall)
    | some h =>
      cases h with
      | none => exact mirrors_pure .null
      | some h => exact H.callBuiltin E (.some h) (passedArgs _ hall)

lemma yeBuiltin (hdecl : Option.Rel (fun d d' => Option.Rel (BuiltinLike C) (P.builtin d) (P'.builtin d')) decl decl')
    (hp : C.code p p') (hps : List.Forall₂ C.code ps ps') :
    Alike C P P' (Interp.yeBuiltin P fuel evaluate cse decl p ps)
      (Interp.yeBuiltin P' fuel evaluate' cse decl' p' ps') := by
  refine mirrors_ite Iff.rfl (fun _ => mirrors_pure .null) fun _ => ?_
  cases hdecl with
  | none => exact mirrors_throw
  | @some d d' hb =>
    dsimp only
    generalize P.builtin d = b at hb
    generalize P'.builtin d' = b' at hb
    cases hb with
    | none => exact mirrors_throw
    | some hb =>
      refine (H.builtinArgs E hb .nil (List.forall₂_take maxargs hps)).bind fun r r' hr => ?_
      cases hr with
      | none => exact mirrors_pure .null
      | some hr =>
        dsimp only
        rw [hps.length_eq]
        exact mirrors_ite Iff.rfl (fun _ => mirrors_pure .null) fun _ => H.applyBuiltin E hb hp hr

/-! ### Calls -/

omit E in
lemma bindFormals (hargs : List.Forall₂ (Corresponds C) args args') (n : Nat) (he : List.Forall₂ C.entry es es') :
    Mirrors (StateLike C P P') Eq (Interp.bindFormals P fuel args n es) (Interp.bindFormals P' fuel args' n es') := by
  induction he generalizing n with
  | nil => exact mirrors_pure rfl
  | cons he _ ih =>
    unfold Interp.bindFormals
    have hvalue := forall₂_getElem? hargs n
    generalize args[n]? = v at hvalue
    generalize args'[n]? = v' at hvalue
    cases hvalue with
    | none => exact mirrors_throw
    | some hv =>
      dsimp only
      rw [hv.isNull_eq]
      refine mirrors_ite Iff.rfl (fun _ => mirrors_pure rfl) fun _ => ?_
      exact (H.setValue he hv).bind fun _ _ _ => ih (n + 1)

lemma runFunction (hcall : CallLike C P P' call call') :
    Alike C P P' (Interp.runFunction P fuel evaluate call) (Interp.runFunction P' fuel evaluate' call') := by
  have hnode := H.node hcall.sentry.code
  unfold Interp.runFunction
  generalize P.code (P.symbol call.sentry).code = n at hnode
  generalize P'.code (P'.symbol call'.sentry).code = n' at hnode
  cases hnode with
  | none => exact mirrors_throw
  | some hn =>
    cases hn with
    | @ycFunction declaration definition declaration' definition' hdeclaration hdefinition =>
      have hformals := H.formals hdeclaration
      refine (pushAll hformals).bind fun _ _ _ => ?_
      have hbody := H.node hdefinition
      generalize P.code definition = m at hbody
      generalize P'.code definition' = m' at hbody
      cases hbody with
      | none => exact mirrors_pure .null
      | some _ =>
        refine (H.bindFormals hcall.parameters 0 hformals).bind fun bound bound' hbound => ?_
        rw [hbound]
        refine mirrors_ite Iff.rfl (fun _ => ?_) fun _ => ?_
        · refine (E false _ _ hdefinition).bind fun _ _ hv => ?_
          exact (popAll hformals).bind fun _ _ _ => mirrors_pure hv
        · exact (popAll hformals).bind fun _ _ _ => mirrors_pure .null
    | _ => exact mirrors_throw

lemma evaluateCall (hcall : CallLike C P P' call call') :
    Alike C P P' (Interp.evaluateCall P fuel evaluate call) (Interp.evaluateCall P' fuel evaluate' call') := by
  refine mirrors_modify (fun _ _ hs => { hs with }) ?_
  refine (H.runFunction E hcall).bind fun _ _ hv => ?_
  exact mirrors_modify (fun _ _ hs => { hs with }) (mirrors_pure hv)

lemma unframedCall (hcall : CallLike C P P' call call') :
    Alike C P P' (Interp.unframedCall P fuel evaluate call) (Interp.unframedCall P' fuel evaluate' call') := by
  refine mirrors_modify (fun _ _ hs => { hs with }) ?_
  refine (H.evaluateCall E hcall).bind fun _ _ hv => ?_
  exact mirrors_modify (fun _ _ hs => { hs with }) (mirrors_pure hv)

omit E H in
lemma parameterCount_eq (hf : FunctionLike C P P' f f') : P.parameterCount f = P'.parameterCount f' := by
  rw [Program.parameterCount, Program.parameterCount, hf.type]

omit E H in
lemma fresh (hf : FunctionLike C P P' f f') : CallLike C P P' (.fresh P f) (.fresh P' f') := by
  refine ⟨hf, ?_⟩
  rw [FunctionCall.fresh, FunctionCall.fresh, parameterCount_eq hf]
  exact Corresponds.replicate .null _

omit E H in
lemma attachParameters (hcall : CallLike C P P' call call') (n : Nat)
    (hargs : List.Forall₂ (Corresponds C) args args') :
    Option.Rel (CallLike C P P') (Interp.attachParameters P call n args)
      (Interp.attachParameters P' call' n args') := by
  induction hargs generalizing n call call' with
  | nil => exact .some hcall
  | cons hv _ ih =>
    unfold Interp.attachParameters
    rw [parameterCount_eq hcall.sentry, hcall.parameters.length_eq]
    split
    · exact ih hcall _
    · split
      · refine ih ?_ _
        exact ⟨hcall.sentry, Corresponds.set hcall.parameters hv n⟩
      · exact .none

omit E H in
lemma attachArgs (hp : C.code p p') (hargs : List.Forall₂ (Corresponds C) args args') :
    StepAlike C P P' (Interp.attachArgs P p args) (Interp.attachArgs P' p' args') := by
  intro s s' hs
  have hcall := hs.functioncall p p' hp
  unfold Interp.attachArgs
  refine ends_get ?_
  generalize s.functioncall p = c at hcall
  generalize s'.functioncall p' = c' at hcall
  cases hcall with
  | none => exact ends_throw hs
  | @some call call' hcall =>
    have hattached := attachParameters hcall 0 hargs
    dsimp only
    generalize Interp.attachParameters P call 0 args = c at hattached
    generalize Interp.attachParameters P' call' 0 args' = c' at hattached
    cases hattached with
    | none => exact ends_throw hs
    | some hcall => exact ends_pure (hs.call hp hcall) trivial

omit H in
lemma prepareCall (hp : C.code p p') (f f' : EntryRef) (hps : List.Forall₂ C.code ps ps') :
    Mirrors (StateLike C P P') (Option.Rel (List.Forall₂ (Corresponds C))) (Interp.prepareCall P evaluate p f ps)
      (Interp.prepareCall P' evaluate' p' f' ps') := by
  refine mirrors_modify (fun _ _ hs => { hs with }) ?_
  refine (evaluateParameters E .nil hps).bind fun r r' hr => ?_
  refine mirrors_modify (fun _ _ hs => { hs with }) ?_
  cases hr with
  | none => exact mirrors_pure .none
  | some hargs => exact (attachArgs hp hargs).bind fun _ _ _ => mirrors_pure (.some hargs)

omit E H in
lemma takeCall (hp : C.code p p') (f f' : EntryRef) (args args' : List YCPValue) :
    Mirrors (StateLike C P P') (CallLike C P P') (Interp.takeCall p f args) (Interp.takeCall p' f' args') := by
  intro s s' hs
  have hcall := hs.functioncall p p' hp
  unfold Interp.takeCall
  refine ends_get ?_
  generalize s.functioncall p = c at hcall
  generalize s'.functioncall p' = c' at hcall
  cases hcall with
  | none => exact ends_throw hs
  | some hcall => exact ends_modify (ends_pure { hs with } hcall)

omit E in
lemma directCall (hp : C.code p p') (he : C.entry e e') :
    Mirrors (StateLike C P P') (Option.Rel (FunctionLike C P P')) (Interp.directCall P p e)
      (Interp.directCall P' p' e') := by
  intro s s' hs
  have hcall := hs.functioncall p p' hp
  unfold Interp.directCall
  refine ends_get ?_
  generalize s.functioncall p = c at hcall
  generalize s'.functioncall p' = c' at hcall
  cases hcall with
  | none =>
    have hfunction := H.function he
    dsimp only
    generalize P.createFunctionCall e = f at hfunction
    generalize P'.createFunctionCall e' = f' at hfunction
    cases hfunction with
    | none => exact ends_pure hs .none
    | some hf => exact ends_modify (ends_pure (hs.call hp (fresh hf)) (.some hf))
  | some hcall => exact ends_modify (ends_pure (hs.call hp (fresh hcall.sentry)) (.some hcall.sentry))

omit E H in
lemma forall₂_tail {α β : Type} {R : α → β → Prop} {l : List α} {l' : List β} (h : List.Forall₂ R l l') :
    List.Forall₂ R l.tail l'.tail := by
  cases h with
  | nil => exact .nil
  | cons _ h => exact h

lemma framedCall (hp : C.code p p') (hargs : List.Forall₂ (Corresponds C) args args')
    (hcall : CallLike C P P' call call') :
    Alike C P P' (Interp.framedCall P fuel evaluate p args call)
      (Interp.framedCall P' fuel evaluate' p' args' call') := by
  refine mirrors_modify (fun _ _ hs => { hs with backtrace := .cons ⟨hp, hargs⟩ hs.backtrace }) ?_
  refine (H.evaluateCall E hcall).bind fun _ _ hv => ?_
  exact mirrors_modify (fun _ _ hs => { hs with backtrace := forall₂_tail hs.backtrace }) (mirrors_pure hv)

lemma yeFunction (hp : C.code p p') (he : C.entry e e') (hps : List.Forall₂ C.code ps ps') :
    Alike C P P' (Interp.yeFunction P fuel evaluate cse p e ps)
      (Interp.yeFunction P' fuel evaluate' cse p' e' ps') := by
  refine mirrors_ite Iff.rfl (fun _ => mirrors_pure .null) fun _ => ?_
  refine (H.directCall hp he).bind fun r r' hr => ?_
  cases hr with
  | none => exact mirrors_pure .void
  | @some f f' _ =>
    refine (prepareCall E hp f f' hps).bind fun r r' hr => ?_
    cases hr with
    | none => exact mirrors_pure .null
    | @some args args' hargs =>
      intro s s' hs
      refine ends_get ?_
      rw [hs.backtrace.length_eq, H.recursionLimit]
      refine mirrors_ite Iff.rfl (fun _ => mirrors_pure .void) (fun _ => ?_) s s' hs
      exact (takeCall hp f f' args args').bind fun _ _ hcall => H.framedCall E hp hargs hcall

lemma yeFunctionPointer (hp : C.code p p') (he : C.entry e e') (hps : List.Forall₂ C.code ps ps') :
    Alike C P P' (Interp.yeFunctionPointer P fuel evaluate cse p e ps)
      (Interp.yeFunctionPointer P' fuel evaluate' cse p' e' ps') := by
  refine mirrors_ite Iff.rfl (fun _ => mirrors_pure .null) fun _ => ?_
  refine (H.entryValue he).bind fun v v' hv => ?_
  cases hv with
  | @reference t t' ht =>
    have hfunction := H.function ht
    dsimp only
    generalize P.createFunctionCall t = f at hfunction
    generalize P'.createFunctionCall t' = f' at hfunction
    cases hfunction with
    | none => exact mirrors_pure .void
    | @some f f' hf =>
      refine mirrors_modify (fun _ _ hs => hs.call hp (fresh hf)) ?_
      refine (prepareCall E hp f f' hps).bind fun r r' hr => ?_
      cases hr with
      | none => exact mirrors_pure .null
      | @some args args' _ => exact (takeCall hp f f' args args').bind fun _ _ hcall => H.unframedCall E hcall
  | _ => exact mirrors_pure .void

/-! ### Blocks and statements -/

omit E in
lemma inScope {info info' : BlockInfo} (hkind : info.kind = info'.kind)
    (hinfo : List.Forall₂ C.entry (Program.symbols info) (Program.symbols info')) (wasRunning : Bool)
    {body body' : M YCPValue} (hbody : Alike C P P' body body') :
    Alike C P P' (Interp.inScope P info wasRunning body) (Interp.inScope P' info' wasRunning body') := by
  unfold Interp.inScope
  rw [hkind]
  exact mirrors_ite Iff.rfl (fun _ => withPushed (H.variableSymbols hinfo) hbody) fun _ => hbody

omit E in
lemma inScopeFrom {info info' : BlockInfo} (hkind : info.kind = info'.kind)
    (hinfo : List.Forall₂ C.entry (Program.symbols info) (Program.symbols info')) (wasRunning : Bool)
    {body body' : M YCPValue} (hbody : Alike C P P' body body') :
    Alike C P P' (Interp.inScopeFrom P info wasRunning body) (Interp.inScopeFrom P' info' wasRunning body') := by
  unfold Interp.inScopeFrom
  rw [hkind]
  refine mirrors_ite Iff.rfl (fun _ => ?_) fun _ => H.inScope hkind hinfo wasRunning hbody
  exact (pushAll (H.variableSymbols hinfo)).bind fun _ _ _ => hbody

omit E H in
lemma blockValue (kind : BlockKind) (h : Corresponds C v v') :
    Corresponds C (Interp.blockValue kind v) (Interp.blockValue kind v') := by
  unfold Interp.blockValue
  rw [h.isNull_eq]
  exact .ite (.ite .null .void) h

lemma yBlock (hp : C.code p p') {info info' : BlockInfo} (hkind : info.kind = info'.kind)
    (hinfo : List.Forall₂ C.entry (Program.symbols info) (Program.symbols info')) (hps : List.Forall₂ C.code ps ps') :
    Alike C P P' (Interp.yBlock P evaluate cse p info ps) (Interp.yBlock P' evaluate' cse p' info' ps') := by
  refine mirrors_ite Iff.rfl (fun _ => mirrors_pure .null) fun _ => ?_
  intro s s' hs
  refine ends_get ?_
  rw [hs.running p p' hp, hkind]
  refine ((H.inScope hkind hinfo _ (runBlock E hp _ hps)).bind fun v v' hv => ?_) s s' hs
  exact mirrors_pure (blockValue _ hv)

lemma evaluateFrom (hp : C.code p p') (index : Int32) :
    Alike C P P' (Interp.evaluateFrom P evaluate p index) (Interp.evaluateFrom P' evaluate' p' index) := by
  have hnode := H.node hp
  unfold Interp.evaluateFrom
  generalize P.code p = n at hnode
  generalize P'.code p' = n' at hnode
  cases hnode with
  | none => exact mirrors_throw
  | some hn =>
    cases hn with
    | @yeBlock info info' table table' point point' statements statements' hinfo hstatements =>
      intro s s' hs
      refine ends_get ?_
      rw [hs.running p p' hp]
      have hrest := List.forall₂_drop index.toInt.toNat hstatements
      refine ((H.inScopeFrom hinfo.1 hinfo.2 _ (runBlock E hp _ hrest)).bind fun v v' hv => ?_) s s' hs
      rw [hinfo.1]
      exact mirrors_pure (blockValue _ hv)
    | _ => exact mirrors_throw

lemma ysAssign (he : C.entry e e') (hp : C.code p p') :
    Alike C P P' (Interp.ysAssign P fuel evaluate cse e p) (Interp.ysAssign P' fuel evaluate' cse e' p') := by
  refine mirrors_ite Iff.rfl (fun _ => mirrors_pure .null) fun _ => ?_
  refine (E false _ _ hp).bind fun v v' hv => ?_
  exact (H.setValue he hv.orVoid).bind fun _ _ _ => mirrors_pure .null

lemma ysBracket (he : C.entry e e') (hp : C.code p p') (hq : C.code q q') :
    Alike C P P' (Interp.ysBracket P fuel evaluate cse e p q) (Interp.ysBracket P' fuel evaluate' cse e' p' q') := by
  refine mirrors_ite Iff.rfl (fun _ => mirrors_pure .null) fun _ => ?_
  refine (E false _ _ hp).bind fun arg arg' harg => ?_
  refine (E false _ _ hq).bind fun new new' hnew => ?_
  refine (H.entryValue he).bind fun v v' hv => ?_
  cases harg with
  | list hl =>
    have hresult := Corresponds.commit hv.orVoid hl hnew.orVoid
    dsimp only
    unfold Interp.orVoid
    rw [hresult.isNull_eq]
    refine mirrors_ite Iff.rfl (fun _ => mirrors_pure .null) fun _ => ?_
    exact (H.setValue he hresult).bind fun _ _ _ => mirrors_pure .null
  | _ => exact mirrors_pure .null

lemma evaluateIfAny (hp : C.code p p') :
    Alike C P P' (Interp.evaluateIfAny P evaluate cse p) (Interp.evaluateIfAny P' evaluate' cse p') := by
  have hnode := H.node hp
  unfold Interp.evaluateIfAny
  generalize P.code p = n at hnode
  generalize P'.code p' = n' at hnode
  cases hnode with
  | none => exact mirrors_pure .null
  | some _ => exact E cse _ _ hp

lemma ysIf (hp : C.code p p') (hq : C.code q q') (hr : C.code r r') :
    Alike C P P' (Interp.ysIf P evaluate cse p q r) (Interp.ysIf P' evaluate' cse p' q' r') := by
  refine (E cse _ _ hp).bind fun v v' hv => ?_
  cases hv with
  | null => exact mirrors_pure .null
  | boolean b =>
    cases b with
    | true => exact H.evaluateIfAny E hq
    | false => exact H.evaluateIfAny E hr
  | _ => exact H.evaluateIfAny E hr

lemma loopBody (hp : C.code p p') :
    Option.Rel (Alike C P P') (Interp.loopBody P evaluate p) (Interp.loopBody P' evaluate' p') := by
  have hnode := H.node hp
  unfold Interp.loopBody
  generalize P.code p = n at hnode
  generalize P'.code p' = n' at hnode
  cases hnode with
  | none => exact .none
  | some _ => exact .some (E false _ _ hp)

lemma ysReturn (hp : C.code p p') :
    Alike C P P' (Interp.ysReturn P evaluate cse p) (Interp.ysReturn P' evaluate' cse p') := by
  refine mirrors_ite Iff.rfl (fun _ => mirrors_pure .null) fun _ => ?_
  refine (H.evaluateIfAny E hp).bind fun v v' hv => ?_
  rw [isNil_eq hv]
  exact mirrors_ite Iff.rfl (fun _ => mirrors_pure .ret) fun _ => mirrors_pure hv

lemma ysImport (name : CText) :
    Alike C P P' (Interp.ysImport P fuel evaluate cse name) (Interp.ysImport P' fuel evaluate' cse name) := by
  refine mirrors_ite Iff.rfl (fun _ => mirrors_pure .null) fun _ => ?_
  have hmodule := H.module name.text
  generalize P.module name.text = m at hmodule
  generalize P'.module name.text = m' at hmodule
  cases hmodule with
  | none => exact mirrors_pure .null
  | @some m m' hm =>
    refine Mirrors.bind (Q := fun _ _ => True) ?_ fun _ _ _ => mirrors_pure .null
    intro s s' hs
    unfold Interp.initializeModule
    refine ends_get ?_
    rw [hs.initialized]
    refine mirrors_ite Iff.rfl (fun _ => mirrors_pure trivial) (fun _ => ?_) s s' hs
    refine mirrors_modify (fun _ _ hs => { hs with initialized := by rw [hs.initialized] }) ?_
    refine (E false _ _ hm.block).bind fun _ _ _ => ?_
    have hconstructor := hm.constructor
    generalize m.constructor = f at hconstructor
    generalize m'.constructor = f' at hconstructor
    cases hconstructor with
    | none => exact mirrors_pure trivial
    | some hf => exact (H.unframedCall E (fresh hf)).bind fun _ _ _ => mirrors_pure trivial

omit E H in
lemma findCase {cases cases' : List (YCPValue × Int32)}
    (hcases : List.Forall₂ (fun c c' => Corresponds C c.1 c'.1 ∧ c.2 = c'.2) cases cases') (h : Corresponds C v v') :
    Interp.findCase cases v = Interp.findCase cases' v' := by
  unfold Interp.findCase
  induction hcases with
  | nil => rfl
  | cons hc _ ih =>
    simp only [List.find?_cons, hc.1.keyLess_eq h, h.keyLess_eq hc.1]
    split
    · exact congrArg some hc.2
    · exact ih

lemma ysSwitch (hp : C.code p p') {cases cases' : List (YCPValue × Int32)}
    (hcases : List.Forall₂ (fun c c' => Corresponds C c.1 c'.1 ∧ c.2 = c'.2) cases cases') (defaultcase : Int32)
    (hq : C.code q q') :
    Alike C P P' (Interp.ysSwitch P evaluate cse p cases defaultcase q)
      (Interp.ysSwitch P' evaluate' cse p' cases' defaultcase q') := by
  have hfrom (index : Int32) : Alike C P P' (do return dropBreak (← Interp.evaluateFrom P evaluate q index))
      (do return dropBreak (← Interp.evaluateFrom P' evaluate' q' index)) := by
    refine (H.evaluateFrom E hq index).bind fun v v' hv => mirrors_pure ?_
    unfold dropBreak
    rw [hv.isBreak_eq]
    exact .ite .null hv
  refine mirrors_ite Iff.rfl (fun _ => mirrors_pure .null) fun _ => ?_
  refine (E false _ _ hp).bind fun v v' hv => ?_
  rw [hv.isNull_eq, findCase hcases hv]
  refine mirrors_ite Iff.rfl (fun _ => mirrors_pure .null) fun _ => ?_
  cases Interp.findCase cases' v' with
  | some index => exact hfrom index
  | none => exact mirrors_ite Iff.rfl (fun _ => hfrom defaultcase) fun _ => mirrors_pure .null

end Evaluating

/-! ### Loops -/

section Loops

variable {condition condition' : M YCPValue} {loop loop' : Option (M YCPValue)}

lemma ysWhile (hcondition : Alike C P P' condition condition') (hloop : Option.Rel (Alike C P P') loop loop')
    (fuel : Nat) : Alike C P P' (YastCore.ysWhile condition loop fuel) (YastCore.ysWhile condition' loop' fuel) := by
  induction fuel with
  | zero => exact mirrors_throw
  | succ fuel ih =>
    refine hcondition.bind fun v v' hv => ?_
    rw [hv.isNull_eq]
    refine mirrors_ite Iff.rfl (fun _ => mirrors_pure .null) fun _ => ?_
    cases hv with
    | boolean b =>
      cases b with
      | false => exact mirrors_pure .null
      | true =>
        cases hloop with
        | none => exact ih
        | some hbody =>
          refine hbody.bind fun w w' hw => ?_
          rw [hw.isNull_eq, hw.isBreak_eq, hw.isReturn_eq, hw.isVoid_eq]
          refine mirrors_ite Iff.rfl (fun _ => ih) fun _ => ?_
          refine mirrors_ite Iff.rfl (fun _ => mirrors_pure .null) fun _ => ?_
          refine mirrors_ite Iff.rfl (fun _ => mirrors_pure hw) fun _ => ?_
          exact mirrors_ite Iff.rfl (fun _ => ih) fun _ => mirrors_pure hw
    | _ => exact mirrors_pure .null

lemma bodyFirstLoop (stop : Bool) (hcondition : Alike C P P' condition condition')
    (hloop : Option.Rel (Alike C P P') loop loop') (fuel : Nat) :
    Alike C P P' (YastCore.bodyFirstLoop stop condition loop fuel)
      (YastCore.bodyFirstLoop stop condition' loop' fuel) := by
  induction fuel with
  | zero => exact mirrors_throw
  | succ fuel ih =>
    have hbody : Alike C P P' (loop.getD (pure .null)) (loop'.getD (pure .null)) := by
      cases hloop with
      | none => exact mirrors_pure .null
      | some h => exact h
    refine hbody.bind fun w w' hw => ?_
    rw [hw.isNull_eq, hw.isVoid_eq, hw.isBreak_eq, hw.isReturn_eq]
    refine mirrors_ite Iff.rfl (fun _ => ?_) fun _ => ?_
    · refine hcondition.bind fun v v' hv => ?_
      rw [hv.isNull_eq]
      refine mirrors_ite Iff.rfl (fun _ => mirrors_pure .null) fun _ => ?_
      cases hv with
      | boolean b => exact mirrors_ite Iff.rfl (fun _ => mirrors_pure .null) fun _ => ih
      | _ => exact mirrors_pure .null
    · refine mirrors_ite Iff.rfl (fun _ => mirrors_pure .null) fun _ => ?_
      exact mirrors_ite Iff.rfl (fun _ => mirrors_pure hw) fun _ => mirrors_pure hw

end Loops

/-! ### All classes -/

lemma forall₂_pairs {α β γ δ : Type} {R : α → γ → Prop} {Q : β → δ → Prop} {l : List (α × β)} {l' : List (γ × δ)}
    (h : List.Forall₂ R (l.map Prod.fst) (l'.map Prod.fst)) (h' : List.Forall₂ Q (l.map Prod.snd) (l'.map Prod.snd)) :
    List.Forall₂ (fun e e' => R e.1 e'.1 ∧ Q e.2 e'.2) l l' := by
  induction l generalizing l' with
  | nil =>
    cases l' with
    | nil => exact .nil
    | cons e' l' => cases h
  | cons e l ih =>
    cases l' with
    | nil => cases h
    | cons e' l' =>
      cases h with
      | cons he h =>
        cases h' with
        | cons he' h' => exact .cons ⟨he, he'⟩ (ih h h')

lemma evaluateNode (H : Relocates C P P') {fuel : Nat} {evaluate evaluate' : Evaluator}
    (E : EvaluateAlike C P P' evaluate evaluate') (cse : Bool) {p p' : CodePtr} (hp : C.code p p')
    {n n' : Node CodePtr} (hn : Node.Like C.code (likeness C P P') n n') :
    Alike C P P' (Interp.evaluateNode P fuel evaluate cse p n) (Interp.evaluateNode P' fuel evaluate' cse p' n') := by
  cases hn with
  | yConst hv => exact mirrors_pure hv
  | ycLocale locale domain =>
    refine mirrors_ite Iff.rfl (fun _ => mirrors_pure .null) fun _ => ?_
    rw [H.dgettext]
    exact mirrors_pure (.string _)
  | ycFunction _ _ => exact mirrors_pure (.code hp)
  | yePropagate htype hvalue => exact H.yePropagate E htype hvalue
  | yeUnary hdecl harg => exact H.yeUnary E hdecl harg
  | yeBinary hdecl harg1 harg2 => exact H.yeBinary E hdecl harg1 harg2
  | yeTriple hexpr htrue hfalse => exact yeTriple E hexpr htrue hfalse
  | yeCompare op hleft hright => exact yeCompare E op hleft hright
  | yeLocale singular plural domain hcount => exact H.yeLocale E singular plural domain hcount
  | yeList helements => exact yeListLoop E .nil helements
  | yeMap hkeys hvalues => exact H.yeMapLoop E .nil (forall₂_pairs hkeys hvalues)
  | yeTerm name hparameters => exact yeTermLoop E name.text .nil hparameters
  | yeIs htype hexpr => exact H.yeIs E htype hexpr
  | yeBracket hvar harg hdefault => exact yeBracket E hvar harg hdefault
  | yeBlock hinfo hstatements => exact H.yBlock E hp hinfo.1 hinfo.2 hstatements
  | yeReturn hexpr => exact mirrors_pure (.code hexpr)
  | yeVariable hentry => exact H.yeVariable hentry
  | yeBuiltin hdecl hblock hparameters => exact H.yeBuiltin E hdecl hblock hparameters
  | yeFunction hentry hparameters => exact H.yeFunction E hp hentry hparameters
  | yeReference hentry =>
    exact mirrors_ite Iff.rfl (fun _ => mirrors_pure .null) fun _ => mirrors_pure (.reference hentry)
  | yeFunctionPointer hentry hparameters => exact H.yeFunctionPointer E hp hentry hparameters
  | ysVariable hentry hvalue => exact H.ysAssign E hentry hvalue
  | ysAssign hentry hvalue => exact H.ysAssign E hentry hvalue
  | ysBracket hentry harg hvalue => exact H.ysBracket E hentry harg hvalue
  | ysIf hcondition htrue hfalse => exact H.ysIf E hcondition htrue hfalse
  | ysWhile hcondition hloop =>
    refine mirrors_ite Iff.rfl (fun _ => mirrors_pure .null) fun _ => ?_
    exact ysWhile (E false _ _ hcondition) (H.loopBody E hloop) fuel
  | ysDo hcondition hloop =>
    refine mirrors_ite Iff.rfl (fun _ => mirrors_pure .null) fun _ => ?_
    exact bodyFirstLoop false (E false _ _ hcondition) (H.loopBody E hloop) fuel
  | ysRepeat hcondition hloop =>
    refine mirrors_ite Iff.rfl (fun _ => mirrors_pure .null) fun _ => ?_
    exact bodyFirstLoop true (E false _ _ hcondition) (H.loopBody E hloop) fuel
  | ysExpression hexpr => exact (E cse _ _ hexpr).bind fun _ _ _ => mirrors_pure .null
  | ysReturn hvalue => exact H.ysReturn E hvalue
  | ysBreak => exact mirrors_pure .brk
  | ysContinue => exact mirrors_pure .void
  | ysImport name => exact H.ysImport E name
  | ysBlock hblock => exact E cse _ _ hblock
  | ysSwitch defaultcase hcondition hvalues hindices hblock =>
    have hcases := forall₂_pairs hvalues ((List.forall₂_eq_eq_eq (α := Int32)).symm ▸ hindices)
    exact H.ysSwitch E hcondition hcases defaultcase hblock
  | _ => exact mirrors_pure .null

/-- Every evaluation ends alike in a relocated program. -/
theorem evaluate (H : Relocates C P P') (fuel : Nat) :
    EvaluateAlike C P P' (Interp.evaluate P fuel) (Interp.evaluate P' fuel) := by
  induction fuel with
  | zero => exact fun _ _ _ _ => mirrors_throw
  | succ fuel ih =>
    intro cse p p' hp
    have hnode := H.node hp
    unfold Interp.evaluate
    generalize P.code p = n at hnode
    generalize P'.code p' = n' at hnode
    cases hnode with
    | none => exact mirrors_throw
    | some hn => exact H.evaluateNode ih cse hp hn

end Relocates

/-- Code at corresponding addresses yields values that correspond, or the same fault, and leaves states that are
alike: wherever the code is, and whichever symbol entries it uses. -/
theorem evaluate_relocated (H : Relocates C P P') {p p' : CodePtr} (hp : C.code p p') {s s' : State}
    (hs : StateLike C P P' s s') (fuel : Nat) (cse : Bool) :
    Ends (StateLike C P P') (Corresponds C) s s' (Interp.evaluate P fuel cse p) (Interp.evaluate P' fuel cse p') :=
  H.evaluate fuel cse p p' hp s s' hs

/-- `return a;` at 1, with the variable at 2, and after another load at 2, with the variable at 1. -/
def returnsA (loaded : Bool) : Program :=
  if loaded then .ofNodes [.yeVariable ⟨.block 5, 0⟩, .ysReturn 9 1] (fun _ => ⟨.c_variable, .base .anyT unqualified, 0⟩) 10
  else .ofNodes [.ysReturn 1 2, .yeVariable ⟨.block 0, 0⟩] (fun _ => ⟨.c_variable, .base .anyT unqualified, 0⟩) 10

def returnsACorrespondence : Correspondence where
  code p p' := p = 1 ∧ p' = 2 ∨ p = 2 ∧ p' = 1
  entry e e' := e = ⟨.block 0, 0⟩ ∧ e' = ⟨.block 5, 0⟩
  code_unique := by
    constructor
    · rintro p q p' (⟨rfl, rfl⟩ | ⟨rfl, rfl⟩) (⟨rfl, h⟩ | ⟨rfl, h⟩) <;> first | rfl | cases h
    · rintro p p' q' (⟨rfl, rfl⟩ | ⟨rfl, rfl⟩) (⟨h, rfl⟩ | ⟨h, rfl⟩) <;> first | rfl | cases h
  entry_unique := ⟨fun _ _ _ h h' => h.1.trans h'.1.symm, fun _ _ _ h h' => h.2.trans h'.2.symm⟩

lemma relocates_returnsA : Relocates returnsACorrespondence (returnsA false) (returnsA true) where
  codeType _ := rfl
  symbol he := ⟨he, rfl, rfl⟩
  function _ := .none
  module _ := .none
  dgettext := rfl
  dngettext := rfl
  recursionLimit := rfl
  node hp := by
    obtain ⟨rfl, rfl⟩ | ⟨rfl, rfl⟩ := hp
    · exact .some (.ysReturn (.inr ⟨rfl, rfl⟩))
    · exact .some (.yeVariable ⟨rfl, rfl⟩)

theorem evaluate_relocated_returnsA :
    Ends (StateLike returnsACorrespondence (returnsA false) (returnsA true)) (Corresponds returnsACorrespondence)
      State.start State.start (Interp.evaluate (returnsA false) 10 false 1)
      (Interp.evaluate (returnsA true) 10 false 2) :=
  evaluate_relocated relocates_returnsA (.inl ⟨rfl, rfl⟩) ⟨fun _ _ _ => .null, fun _ _ _ => .none, fun _ _ _ => rfl,
    fun _ _ _ => .none, .nil, rfl, rfl⟩ 10 false

end YastCore.Interp
