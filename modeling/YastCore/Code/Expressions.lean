import YastCore.Code.Follow

/-!
# Expressions in bytecode

For each class of expressions, what its stream constructor makes of the bytes of its `toStream`.
-/

namespace YastCore

namespace Bytecode

open Codec YCode

variable {E : WriterEnv} {L : ReaderEnv} {B : Base}

/-! ### Kinds -/

section Nodes

variable {n : Node YCode}

/-- Of a node that is no block only the bytes count. -/
lemma follows_of_step (hblock : (node n).blockInfo = none)
    (h : ∀ ⦃f F k w s n' k'⦄, toStreamNode E n (writerStack B F) = .ok (w, s) →
      copyNode E L n k = some (n', k') → Linked E L F k → ∃ b w', w = b :: w' ∧ (w'.length ≤ f →
        Simulates E L B (readCodeStep L (readCodeFuel L f)) F k (b :: w') s (Readable E (.node n))
          (.node n') k')) : Follows E L B (.node n) := by
  intro F k w s c' k' fuel hw hc hk hfuel
  simp only [toStream] at hw
  simp only [copy, CopyM.bind_some_iff, CopyM.pure_some_iff] at hc
  obtain ⟨n', _, hn, rfl, rfl⟩ := hc
  cases fuel with
  | zero => exact absurd (List.eq_nil_of_length_eq_zero (by omega)) (toStreamNode_ne_nil hw)
  | succ f =>
    obtain ⟨b, w', rfl, hsim⟩ := h (f := f) hw hn hk
    exact ⟨hsim (by simpa using hfuel), by simp [Closes, hblock]⟩

@[simp] lemma readable_node : Readable E (.node n) ↔
    n.ConstantsFit E.isprint ∧ ∀ c ∈ written E n, Readable E c :=
  every_node

/-- Neither a constant nor a statement. -/
def isExpression (b : UInt8) : Bool := !decide (b < 13 ∨ 128 ≤ b) && !decide (35 ≤ b ∧ b ≤ 53)

def isStatement (b : UInt8) : Bool := !decide (b < 13 ∨ 128 ≤ b) && decide (35 ≤ b ∧ b ≤ 53)

/-- An expression of kind `b`; `good` says when its constants fit. -/
lemma follows_of_expression (b : UInt8) (hkind : isExpression b = true)
    (hblock : (node n).blockInfo = none) (good : Prop) (hgood : good ↔ Readable E (.node n))
    (h : ∀ ⦃f F k w s n' k'⦄, toStreamNode E n (writerStack B F) = .ok (w, s) →
      copyNode E L n k = some (n', k') → Linked E L F k → ∃ w', w = b :: w' ∧ (w'.length ≤ f →
        Simulates E L B (readExpression L (readCodeFuel L f) b.toNat) F k w' s good (.node n') k')) :
    Follows E L B (.node n) := by
  simp only [isExpression, Bool.and_eq_true, Bool.not_eq_true', decide_eq_false_iff_not] at hkind
  refine follows_of_step hblock fun f F k w s n' k' hw hc hk => ?_
  obtain ⟨w', rfl, hsim⟩ := h (f := f) hw hc hk
  refine ⟨b, w', rfl, fun hlen => .congr ?_ hgood⟩
  refine Simulates.first (w := [b]) (reads_next _ b) ?_
  rw [if_neg hkind.1, if_neg hkind.2]
  exact hsim hlen

/-- A statement of kind `b`. -/
lemma follows_of_statement (b : UInt8) (hkind : isStatement b = true)
    (hblock : (node n).blockInfo = none) (line : UInt32) (good : Prop)
    (hgood : good ↔ Readable E (.node n))
    (h : ∀ ⦃f F k w s n' k'⦄, toStreamNode E n (writerStack B F) = .ok (w, s) →
      copyNode E L n k = some (n', k') → Linked E L F k →
      ∃ w', w = b :: (writeInt32 line.toNat ++ w') ∧ (w'.length ≤ f →
        Simulates E L B (readStatement L (readCodeFuel L f) b.toNat line) F k w' s good
          (.node n') k')) : Follows E L B (.node n) := by
  simp only [isStatement, Bool.and_eq_true, Bool.not_eq_true', decide_eq_false_iff_not,
    decide_eq_true_eq] at hkind
  refine follows_of_step hblock fun f F k w s n' k' hw hc hk => ?_
  obtain ⟨w', rfl, hsim⟩ := h (f := f) hw hc hk
  refine ⟨b, _, rfl, fun hlen => .congr ?_ hgood⟩
  refine Simulates.first (w := [b]) (reads_next _ b) ?_
  rw [if_neg hkind.1, if_pos hkind.2]
  refine Simulates.first (reads_line line) (hsim ?_)
  have hlen' : (writeInt32 line.toNat ++ w').length = _ := List.length_append
  omega

lemma elim_ok_iff {α : Type} {o : Option α} {a : α} {s s' : NamespaceStack} :
    (o.elim (throw .nullHandle) pure : Exec WriteFault NamespaceStack α) s = .ok (a, s') ↔
      o = some a ∧ s = s' := by
  cases o <;> simp

/-! ### Constants -/

section Constants

variable {v : YCPValue} (kind : ConstKind)

lemma writeConst_constant (hv : v.Constant E.isprint) :
    writeConst E kind v = (do
      let w ← writeOfOption (writeValue E.isprint E.writeQuoted (fun _ => none) v)
      return UInt8.ofNat kind.code :: (writeBool true ++ w.tail)) := by
  cases v <;> first | rfl | simp [YCPValue.Constant] at hv

lemma copyConst_constant (hv : v.Constant E.isprint) :
    copyConst E L kind v = (do
      guardCopy (kind.valuetype = some (UInt8.ofNat v.valuetype))
      return .yConst kind v.carried) := by
  cases v <;> first | rfl | simp [YCPValue.Constant] at hv

lemma readConst_valuetype {kind : ConstKind} {tag : UInt8} (h : kind.valuetype = some tag) :
    readConst L kind = (do
      if ← readBool then
        return .node (.yConst kind (← readPayload L tag))
      else
        return .node (.yConst kind .null)) := by
  cases kind <;> simp_all [readConst, ConstKind.valuetype]

lemma code_lt_constKind : UInt8.ofNat kind.code < 13 := by
  cases kind <;> decide

lemma getElem?_constKind : ConstKind.all[(UInt8.ofNat kind.code).toNat]?.getD .yxError = kind := by
  cases kind <;> rfl

end Constants

lemma follows_yConst_entry (kind : ConstKind) {e : EntryRef} (hfits : EntryFits e) :
    Follows E L B (.node (.yConst kind (.entry e))) := by
  refine follows_of_step rfl fun f F k w s n' k' hw hc hk => ?_
  simp only [toStreamNode, writeConst, Exec.bind_ok_iff, Exec.pure_ok_iff] at hw
  simp only [copyNode, copyConst, CopyM.bind_some_iff, CopyM.pure_some_iff, guardCopy_some_iff,
    decide_eq_true_eq, copyEntry_some_iff] at hc
  obtain ⟨w, _, hw, rfl, rfl⟩ := hw
  obtain ⟨_, _, ⟨rfl, rfl⟩, e', _, ⟨he, rfl⟩, rfl, rfl⟩ := hc
  obtain ⟨rfl, hread⟩ := reads_entryPtr hk hw he hfits
  refine ⟨_, _, rfl, fun hlen => ?_⟩
  refine Simulates.first (w := [UInt8.ofNat ConstKind.ycEntry.code]) (reads_next _ _) ?_
  rw [if_pos (.inl (code_lt_constKind _)), getElem?_constKind]
  refine .first (reads_writeBool true) ?_
  refine Simulates.congr (simulates_of_reads hk ?_) (by simp)
  exact hread.bind_nil (Reads.pure _ _)

lemma follows_yConst (kind : ConstKind) {v : YCPValue} (hv : v.Constant E.isprint) :
    Follows E L B (.node (.yConst kind v)) := by
  refine follows_of_step rfl fun f F k w s n' k' hw hc hk => ?_
  simp only [toStreamNode, writeConst_constant kind hv, Exec.bind_ok_iff, Exec.pure_ok_iff,
    writeOfOption_ok_iff] at hw
  simp only [copyNode, copyConst_constant kind hv, CopyM.bind_some_iff, CopyM.pure_some_iff,
    guardCopy_some_iff, decide_eq_true_eq] at hc
  obtain ⟨w, _, ⟨hw, rfl⟩, rfl, rfl⟩ := hw
  obtain ⟨_, _, ⟨htag, rfl⟩, rfl, rfl⟩ := hc
  obtain rfl := (accepted_of_eq hw).2
  refine ⟨_, _, rfl, fun hlen => .congr ?_ (Node.constantsFit_yConst kind hv |>.symm.trans
    (by simp))⟩
  refine Simulates.first (w := [UInt8.ofNat kind.code]) (reads_next _ _) ?_
  rw [if_pos (.inl (code_lt_constKind _)), getElem?_constKind, readConst_valuetype htag]
  refine .first (reads_writeBool true) ⟨F, Extends.refl F k, rfl, hk, ?_⟩
  exact (readPayload_decides hv _).map (Reads.pure _ _)

/-! ### Expressions -/

lemma follows_ycLocale {locale domain : CText} (hfits : locale.Fits ∧ domain.Fits) :
    Follows E L B (.node (.ycLocale locale domain)) := by
  refine follows_of_expression 14 rfl rfl True (by simp)
    fun f F k w s n' k' hw hc hk => ?_
  simp only [toStreamNode, Exec.pure_ok_iff] at hw
  simp only [copyNode, CopyM.pure_some_iff] at hc
  obtain ⟨rfl, rfl⟩ := hw
  obtain ⟨rfl, rfl⟩ := hc
  refine ⟨_, rfl, fun _ => simulates_of_reads hk ?_⟩
  exact (reads_writeCharp hfits.1 _).bind ((reads_writeCharp hfits.2 _).bind_nil (Reads.pure _ _))

lemma follows_ycFunction {declaration : YCode}
    (ih : needDeclaration declaration = true → Follows E L B declaration) (definition : YCode) :
    Follows E L B (.node (.ycFunction declaration definition)) := by
  refine follows_of_expression 15 rfl rfl (needDeclaration declaration = true → Readable E declaration)
    (by simp) fun f F k w s n' k' hw hc hk => ?_
  simp only [toStreamNode, writeFunction, Exec.bind_ok_iff, Exec.pure_ok_iff] at hw
  simp only [copyNode, CopyM.bind_some_iff, CopyM.pure_some_iff] at hc
  obtain ⟨w, _, hw, rfl, rfl⟩ := hw
  obtain ⟨_, _, hc, rfl, rfl⟩ := hc
  refine ⟨_, rfl, fun hlen => ?_⟩
  rw [List.length_append] at hlen
  exact (simulates_ifPresent ih hw hc hk (by omega)).map fun st => Reads.pure _ st

lemma follows_yePropagate (hrt : RoundTrips E L) (source target : TypeId) {value : YCode}
    (ih : Follows E L B value) : Follows E L B (.node (.yePropagate source target value)) := by
  refine follows_of_expression 16 rfl rfl (Readable E value) (by simp)
    fun f F k w s n' k' hw hc hk => ?_
  simp only [toStreamNode, Exec.bind_ok_iff, Exec.pure_ok_iff] at hw
  simp only [copyNode, CopyM.bind_some_iff, CopyM.pure_some_iff] at hc
  obtain ⟨w, _, hw, rfl, rfl⟩ := hw
  obtain ⟨_, _, hc, rfl, rfl⟩ := hc
  refine ⟨_, rfl, fun hlen => ?_⟩
  simp only [List.length_append] at hlen
  refine .first (hrt.type source) (.first (hrt.type target) ?_)
  exact (ih hw hc hk (by omega)).1.map fun st => Reads.pure _ st

lemma follows_yeUnary (hrt : RoundTrips E L) (decl : Option DeclId) {arg : YCode}
    (ih : Follows E L B arg) : Follows E L B (.node (.yeUnary decl arg)) := by
  refine follows_of_expression 17 rfl rfl (Readable E arg) (by simp)
    fun f F k w s n' k' hw hc hk => ?_
  simp only [toStreamNode, Exec.bind_ok_iff, Exec.pure_ok_iff, elim_ok_iff] at hw
  simp only [copyNode, CopyM.bind_some_iff, CopyM.pure_some_iff] at hc
  obtain ⟨d, _, ⟨rfl, rfl⟩, w, _, hw, rfl, rfl⟩ := hw
  obtain ⟨_, _, hc, rfl, rfl⟩ := hc
  refine ⟨_, rfl, fun hlen => ?_⟩
  simp only [List.length_append] at hlen
  refine .first (hrt.declaration d) ?_
  exact (ih hw hc hk (by omega)).1.map fun st => Reads.pure _ st

lemma follows_yeBinary (hrt : RoundTrips E L) (decl : Option DeclId) {arg1 arg2 : YCode}
    (ih₁ : Follows E L B arg1) (ih₂ : Follows E L B arg2) :
    Follows E L B (.node (.yeBinary decl arg1 arg2)) := by
  refine follows_of_expression 18 rfl rfl (Readable E arg1 ∧ Readable E arg2) (by simp)
    fun f F k w s n' k' hw hc hk => ?_
  simp only [toStreamNode, Exec.bind_ok_iff, Exec.pure_ok_iff, elim_ok_iff] at hw
  simp only [copyNode, CopyM.bind_some_iff, CopyM.pure_some_iff] at hc
  obtain ⟨d, _, ⟨rfl, rfl⟩, w₁, _, hw₁, w₂, _, hw₂, rfl, rfl⟩ := hw
  obtain ⟨_, _, hc₁, _, _, hc₂, rfl, rfl⟩ := hc
  refine ⟨_, rfl, fun hlen => ?_⟩
  simp only [List.length_append] at hlen
  refine .first (hrt.declaration d) ((ih₁ hw₁ hc₁ hk (by omega)).1.bind ?_)
  rintro F₁ rfl hk₁
  exact (ih₂ hw₂ hc₂ hk₁ (by omega)).1.map fun st => Reads.pure _ st

lemma follows_yeTriple {expr ifTrue ifFalse : YCode} (ih : Follows E L B expr)
    (ih₁ : Follows E L B ifTrue) (ih₂ : Follows E L B ifFalse) :
    Follows E L B (.node (.yeTriple expr ifTrue ifFalse)) := by
  refine follows_of_expression 19 rfl rfl (Readable E expr ∧ Readable E ifTrue ∧ Readable E ifFalse) (by simp)
    fun f F k w s n' k' hw hc hk => ?_
  simp only [toStreamNode, Exec.bind_ok_iff, Exec.pure_ok_iff] at hw
  simp only [copyNode, CopyM.bind_some_iff, CopyM.pure_some_iff] at hc
  obtain ⟨w, _, hw, w₁, _, hw₁, w₂, _, hw₂, rfl, rfl⟩ := hw
  obtain ⟨_, _, hc, _, _, hc₁, _, _, hc₂, rfl, rfl⟩ := hc
  refine ⟨_, rfl, fun hlen => ?_⟩
  simp only [List.length_append] at hlen
  refine (ih hw hc hk (by omega)).1.bind ?_
  rintro F₁ rfl hk₁
  refine (ih₁ hw₁ hc₁ hk₁ (by omega)).1.bind ?_
  rintro F₂ rfl hk₂
  exact (ih₂ hw₂ hc₂ hk₂ (by omega)).1.map fun st => Reads.pure _ st

lemma follows_yeCompare {left right : YCode} (op : UInt8) (ih₁ : Follows E L B left)
    (ih₂ : Follows E L B right) : Follows E L B (.node (.yeCompare left op right)) := by
  refine follows_of_expression 20 rfl rfl (Readable E left ∧ Readable E right) (by simp)
    fun f F k w s n' k' hw hc hk => ?_
  simp only [toStreamNode, Exec.bind_ok_iff, Exec.pure_ok_iff] at hw
  simp only [copyNode, CopyM.bind_some_iff, CopyM.pure_some_iff] at hc
  obtain ⟨w₁, _, hw₁, w₂, _, hw₂, rfl, rfl⟩ := hw
  obtain ⟨_, _, hc₁, _, _, hc₂, rfl, rfl⟩ := hc
  refine ⟨_, rfl, fun hlen => ?_⟩
  simp only [List.length_append, List.length_cons] at hlen
  refine (ih₁ hw₁ hc₁ hk (by omega)).1.bind ?_
  rintro F₁ rfl hk₁
  refine Simulates.first (w := [op]) (reads_next _ op) ?_
  exact (ih₂ hw₂ hc₂ hk₁ (by omega)).1.map fun st => Reads.pure _ st

lemma follows_yeLocale {singular plural domain : CText} {count : YCode}
    (hfits : singular.Fits ∧ plural.Fits ∧ domain.Fits) (ih : Follows E L B count) :
    Follows E L B (.node (.yeLocale singular plural count domain)) := by
  refine follows_of_expression 21 rfl rfl (Readable E count) (by simp)
    fun f F k w s n' k' hw hc hk => ?_
  simp only [toStreamNode, Exec.bind_ok_iff, Exec.pure_ok_iff] at hw
  simp only [copyNode, CopyM.bind_some_iff, CopyM.pure_some_iff] at hc
  obtain ⟨w, _, hw, rfl, rfl⟩ := hw
  obtain ⟨_, _, hc, rfl, rfl⟩ := hc
  refine ⟨_, rfl, fun hlen => ?_⟩
  simp only [List.length_append] at hlen
  refine .first (reads_writeCharp hfits.1) (.first (reads_writeCharp hfits.2.1) ?_)
  refine (ih hw hc hk (by omega)).1.bind_last ?_
  rintro F₁ rfl hk₁
  exact simulates_of_reads hk₁ ((reads_writeCharp hfits.2.2 _).bind_nil (Reads.pure _ _))

lemma follows_yeList {elements : List YCode} (hlt : elements.length < 2 ^ 32)
    (ih : ∀ c ∈ elements, Follows E L B c) : Follows E L B (.node (.yeList elements)) := by
  refine follows_of_expression 22 rfl rfl (∀ c ∈ elements, Readable E c) (by simp)
    fun f F k w s n' k' hw hc hk => ?_
  simp only [toStreamNode, Exec.bind_ok_iff, Exec.pure_ok_iff, writeCounted_ok_iff] at hw
  simp only [copyNode, CopyM.bind_some_iff, CopyM.pure_some_iff] at hc
  obtain ⟨_, _, ⟨w, hw, rfl⟩, rfl, rfl⟩ := hw
  obtain ⟨_, _, hc, rfl, rfl⟩ := hc
  refine ⟨_, rfl, fun hlen => ?_⟩
  rw [List.length_append] at hlen
  refine .first (reads_writeInt32 hlt) ?_
  exact (simulates_list ih hw hc hk (by omega) []).map fun st => Reads.pure _ st

lemma follows_yeMap {entries : List (YCode × YCode)} (hlt : entries.length < 2 ^ 32)
    (ih : ∀ e ∈ entries, Follows E L B e.1 ∧ Follows E L B e.2) :
    Follows E L B (.node (.yeMap entries)) := by
  refine follows_of_expression 23 rfl rfl (∀ e ∈ entries, Readable E e.1 ∧ Readable E e.2) ?_
    fun f F k w s n' k' hw hc hk => ?_
  · simp only [readable_node, written, Node.children, Node.ConstantsFit, true_and,
      List.forall_mem_flatMap, List.forall_mem_cons, List.not_mem_nil, false_imp_iff, implies_true,
      and_true]
  · simp only [toStreamNode, Exec.bind_ok_iff, Exec.pure_ok_iff, writeCounted_ok_iff] at hw
    simp only [copyNode, CopyM.bind_some_iff, CopyM.pure_some_iff] at hc
    obtain ⟨_, _, ⟨w, hw, rfl⟩, rfl, rfl⟩ := hw
    obtain ⟨_, _, hc, rfl, rfl⟩ := hc
    refine ⟨_, rfl, fun hlen => ?_⟩
    rw [List.length_append] at hlen
    refine .first (reads_writeInt32 hlt) ?_
    exact (simulates_entries ih hw hc hk (by omega) []).map fun st => Reads.pure _ st

lemma follows_yeTerm {name : CText} {parameters : List YCode} (hname : name.Fits)
    (hlt : parameters.length < 2 ^ 32) (ih : ∀ c ∈ parameters, Follows E L B c) :
    Follows E L B (.node (.yeTerm name parameters)) := by
  refine follows_of_expression 24 rfl rfl (∀ c ∈ parameters, Readable E c) (by simp)
    fun f F k w s n' k' hw hc hk => ?_
  simp only [toStreamNode, Exec.bind_ok_iff, Exec.pure_ok_iff, writeCounted_ok_iff] at hw
  simp only [copyNode, CopyM.bind_some_iff, CopyM.pure_some_iff] at hc
  obtain ⟨_, _, ⟨w, hw, rfl⟩, rfl, rfl⟩ := hw
  obtain ⟨_, _, hc, rfl, rfl⟩ := hc
  refine ⟨_, rfl, fun hlen => ?_⟩
  simp only [List.length_append] at hlen
  refine .first (reads_writeCharp hname) (.first (reads_writeInt32 hlt) ?_)
  exact (simulates_list ih hw hc hk (by omega) []).map fun st => Reads.pure _ st

lemma follows_yeIs (hrt : RoundTrips E L) (type : TypeId) {expr : YCode} (ih : Follows E L B expr) :
    Follows E L B (.node (.yeIs type expr)) := by
  refine follows_of_expression 25 rfl rfl (Readable E expr) (by simp)
    fun f F k w s n' k' hw hc hk => ?_
  simp only [toStreamNode, Exec.bind_ok_iff, Exec.pure_ok_iff] at hw
  simp only [copyNode, CopyM.bind_some_iff, CopyM.pure_some_iff] at hc
  obtain ⟨w, _, hw, rfl, rfl⟩ := hw
  obtain ⟨_, _, hc, rfl, rfl⟩ := hc
  refine ⟨_, rfl, fun hlen => ?_⟩
  rw [List.length_append] at hlen
  exact .first (hrt.type type) ((ih hw hc hk (by omega)).1.map fun st => Reads.pure _ st)

lemma follows_yeBracket (hrt : RoundTrips E L) {var arg default : YCode}
    (resultType : Option TypeId) (ih₁ : Follows E L B var) (ih₂ : Follows E L B arg)
    (ih₃ : Follows E L B default) :
    Follows E L B (.node (.yeBracket var arg default resultType)) := by
  refine follows_of_expression 26 rfl rfl (Readable E var ∧ Readable E arg ∧ Readable E default) (by simp)
    fun f F k w s n' k' hw hc hk => ?_
  simp only [toStreamNode, Exec.bind_ok_iff, Exec.pure_ok_iff, elim_ok_iff] at hw
  simp only [copyNode, CopyM.bind_some_iff, CopyM.pure_some_iff] at hc
  obtain ⟨w₁, _, hw₁, w₂, _, hw₂, w₃, _, hw₃, type, _, ⟨rfl, rfl⟩, rfl, rfl⟩ := hw
  obtain ⟨_, _, hc₁, _, _, hc₂, _, _, hc₃, rfl, rfl⟩ := hc
  refine ⟨_, rfl, fun hlen => ?_⟩
  simp only [List.length_append] at hlen
  refine (ih₁ hw₁ hc₁ hk (by omega)).1.bind ?_
  rintro F₁ rfl hk₁
  refine (ih₂ hw₂ hc₂ hk₁ (by omega)).1.bind ?_
  rintro F₂ rfl hk₂
  refine (ih₃ hw₃ hc₃ hk₂ (by omega)).1.bind_last ?_
  rintro F₃ rfl hk₃
  exact simulates_of_reads hk₃ ((hrt.type type _).bind_nil (Reads.pure _ _))

lemma follows_yeReturn {expr : YCode} (ih : Follows E L B expr) :
    Follows E L B (.node (.yeReturn expr)) := by
  refine follows_of_expression 28 rfl rfl (Readable E expr) (by simp)
    fun f F k w s n' k' hw hc hk => ?_
  simp only [toStreamNode, Exec.bind_ok_iff, Exec.pure_ok_iff] at hw
  simp only [copyNode, CopyM.bind_some_iff, CopyM.pure_some_iff] at hc
  obtain ⟨w, _, hw, rfl, rfl⟩ := hw
  obtain ⟨_, _, hc, rfl, rfl⟩ := hc
  exact ⟨_, rfl, fun hlen => (ih hw hc hk hlen).1.map fun st => Reads.pure _ st⟩

lemma follows_yeVariable {entry : EntryRef} (hfits : EntryFits entry) :
    Follows E L B (.node (.yeVariable entry)) := by
  refine follows_of_expression 29 rfl rfl True (by simp)
    fun f F k w s n' k' hw hc hk => ?_
  simp only [toStreamNode, Exec.bind_ok_iff, Exec.pure_ok_iff] at hw
  simp only [copyNode, CopyM.bind_some_iff, CopyM.pure_some_iff, copyEntry_some_iff] at hc
  obtain ⟨w, _, hw, rfl, rfl⟩ := hw
  obtain ⟨_, _, ⟨he, rfl⟩, rfl, rfl⟩ := hc
  obtain ⟨rfl, hread⟩ := reads_entryPtr hk hw he hfits
  exact ⟨_, rfl, fun hlen => simulates_of_reads hk (hread.bind_nil (Reads.pure _ _))⟩

lemma follows_yeReference {entry : EntryRef} (hfits : EntryFits entry) :
    Follows E L B (.node (.yeReference entry)) := by
  refine follows_of_expression 32 rfl rfl True (by simp)
    fun f F k w s n' k' hw hc hk => ?_
  simp only [toStreamNode, Exec.bind_ok_iff, Exec.pure_ok_iff] at hw
  simp only [copyNode, CopyM.bind_some_iff, CopyM.pure_some_iff, copyEntry_some_iff] at hc
  obtain ⟨w, _, hw, rfl, rfl⟩ := hw
  obtain ⟨_, _, ⟨he, rfl⟩, rfl, rfl⟩ := hc
  obtain ⟨rfl, hread⟩ := reads_entryPtr hk hw he hfits
  exact ⟨_, rfl, fun hlen => simulates_of_reads hk (hread.bind_nil (Reads.pure _ _))⟩

lemma simulates_parameters {parameters parameters' : List YCode} {F : List Frame} {k k' : Links}
    {w : Bytes} {s : NamespaceStack} {fuel : Nat} (ih : ∀ c ∈ parameters, Follows E L B c)
    (hw : toStreamList E parameters (writerStack B F) = .ok (w, s))
    (hc : copyList E L parameters k = some (parameters', k')) (hk : Linked E L F k)
    (hfuel : w.length ≤ fuel) :
    Simulates E L B (readParameters (readCodeFuel L fuel) parameters.length) F k w s
      (∀ c ∈ parameters, Readable E c) (some parameters') k' :=
  (simulates_list ih hw hc hk hfuel []).map fun st => Reads.pure _ st

lemma follows_yeFunction {entry : EntryRef} {parameters : List YCode} (hfits : EntryFits entry)
    (hlt : parameters.length < 2 ^ 32) (ih : ∀ c ∈ parameters, Follows E L B c) :
    Follows E L B (.node (.yeFunction entry parameters)) := by
  refine follows_of_expression 31 rfl rfl (∀ c ∈ parameters, Readable E c) (by simp)
    fun f F k w s n' k' hw hc hk => ?_
  simp only [toStreamNode, Exec.bind_ok_iff, Exec.pure_ok_iff, writeCounted_ok_iff] at hw
  simp only [copyNode, CopyM.bind_some_iff, CopyM.pure_some_iff, copyEntry_some_iff] at hc
  obtain ⟨we, _, hwe, _, _, ⟨w, hw, rfl⟩, rfl, rfl⟩ := hw
  obtain ⟨_, _, ⟨he, rfl⟩, _, _, hc, rfl, rfl⟩ := hc
  obtain ⟨rfl, hread⟩ := reads_writeEntry hk hwe he hfits
  refine ⟨_, rfl, fun hlen => ?_⟩
  simp only [List.length_append] at hlen
  refine .after hread (Extends.refl F _) (.first (reads_writeInt32 hlt) ?_)
  exact (simulates_parameters ih hw hc hk (by omega)).map fun st => Reads.pure _ st

lemma follows_yeFunctionPointer {entry : EntryRef} {parameters : List YCode}
    (hfits : EntryFits entry) (hlt : parameters.length < 2 ^ 32)
    (ih : ∀ c ∈ parameters, Follows E L B c) :
    Follows E L B (.node (.yeFunctionPointer entry parameters)) := by
  refine follows_of_expression 33 rfl rfl (∀ c ∈ parameters, Readable E c) (by simp)
    fun f F k w s n' k' hw hc hk => ?_
  simp only [toStreamNode, Exec.bind_ok_iff, Exec.pure_ok_iff, writeCounted_ok_iff] at hw
  simp only [copyNode, CopyM.bind_some_iff, CopyM.pure_some_iff, copyEntry_some_iff] at hc
  obtain ⟨we, _, hwe, _, _, ⟨w, hw, rfl⟩, rfl, rfl⟩ := hw
  obtain ⟨_, _, ⟨he, rfl⟩, _, _, hc, rfl, rfl⟩ := hc
  obtain ⟨rfl, hread⟩ := reads_entryPtr hk hwe he hfits
  refine ⟨_, rfl, fun hlen => ?_⟩
  simp only [List.length_append] at hlen
  refine .after hread (Extends.refl F _) (.first (reads_writeInt32 hlt) ?_)
  exact (simulates_parameters ih hw hc hk (by omega)).map fun st => Reads.pure _ st

lemma follows_yeBuiltin (hrt : RoundTrips E L) (type : Option TypeId) (decl : Option DeclId)
    {parameterblock : YCode} {parameters : List YCode} (hlt : parameters.length < 2 ^ 32)
    (ihb : Follows E L B parameterblock) (ih : ∀ c ∈ parameters, Follows E L B c) :
    Follows E L B (.node (.yeBuiltin type decl parameterblock parameters)) := by
  refine follows_of_expression 30 rfl rfl
    (Readable E parameterblock ∧ ∀ c ∈ parameters, Readable E c) (by simp)
    fun f F k w s n' k' hw hc hk => ?_
  simp only [toStreamNode, Exec.bind_ok_iff, Exec.pure_ok_iff, elim_ok_iff, Exec.modify_ok_iff,
    writeCounted_ok_iff] at hw
  simp only [copyNode, CopyM.bind_some_iff, CopyM.pure_some_iff, guardCopy_some_iff] at hc
  obtain ⟨ty, _, ⟨rfl, rfl⟩, d, _, ⟨rfl, rfl⟩, wb, s₁, hwb, _, _, rfl, _, s₂, ⟨w, hw, rfl⟩, _, _, rfl,
    rfl, rfl⟩ := hw
  obtain ⟨block, k₁, hcb, _, _, ⟨hblock, rfl⟩, parameters', _, hc, rfl, rfl⟩ := hc
  refine ⟨_, rfl, fun hlen => ?_⟩
  simp only [List.length_append] at hlen
  obtain ⟨hsim, rfl, hheld⟩ :=
    simulates_parameterblock ihb hwb hcb hblock hk (show wb.length ≤ f by omega)
  obtain ⟨hle, hk₁, hread⟩ := hsim.exact
  rw [blockInfo_map_ns, writerStack_hold hheld.isSome] at hw
  obtain ⟨F₁, ⟨hle₁, G, rfl, hG⟩, rfl, hk₂, hread₂⟩ :=
    simulates_list ih hw hc (hk₁.hold hheld.linked) (show w.length ≤ f by omega) []
  obtain ⟨F₂, hwriter, hreader, hk₃, G₂, rfl, hG₂⟩ :=
    release (B := B) (hk₁.hold hheld.linked) hk₂ hheld.isSome hG
  refine ⟨F ++ G₂, ⟨hle.trans hle₁, G₂, rfl, fun c c' h => ?_⟩, ?_, hk₃, ?_⟩
  · rcases hG₂ c c' h with hc' | hc'
    · exact hheld.new c' hc'.symm
    · exact hle.trans (hG c c' hc')
  · rw [blockInfo_map_ns, hwriter]
  · refine (hrt.type ty _).bind_decides ((hrt.declaration d _).bind_decides (hread.bind ?_))
    rw [blockInfo_map_ns]
    refine (reads_modifyState _ _).bind_decides_nil ?_
    rw [readerState_hold hheld.isSome]
    refine (reads_writeInt32 hlt _).bind_decides (hread₂.map ?_)
    refine (reads_modifyState _ _).bind_nil ?_
    rw [hreader]
    exact Reads.pure _ _

lemma readable_yeBlock {info : BlockInfo} {table : List (TableItem YCode)} {point : Point}
    {statements : List YCode} :
    Readable E (.node (.yeBlock info table point statements)) ↔
      (info.hasTable = true → ∀ i ∈ table, (E.symbol i.entry).category = .c_function →
        (E.symbol i.entry).global = true → Readable E i.prototype) ∧
      ∀ c ∈ statements, Readable E c := by
  simp only [readable_node, Node.ConstantsFit, written, true_and, List.forall_mem_append]
  refine and_congr_left fun _ => ?_
  cases info.hasTable <;> grind

lemma follows_yeBlock (hrt : RoundTrips E L) {info : BlockInfo} {table : List (TableItem YCode)}
    {point : Point} {statements : List YCode}
    (hsized : (Node.yeBlock info table point statements).Sized)
    (iht : info.hasTable = true → ∀ i ∈ table, (E.symbol i.entry).category = .c_function →
      (E.symbol i.entry).global = true → Follows E L B i.prototype)
    (ihs : ∀ c ∈ statements, Follows E L B c) :
    Follows E L B (.node (.yeBlock info table point statements)) := by
  obtain ⟨hname, hcount, htable, hpoint, hstatements⟩ := hsized
  intro F k w s c' k' fuel hw hc hk hfuel
  simp only [toStream, toStreamNode, Exec.bind_ok_iff, Exec.pure_ok_iff, Exec.modify_ok_iff,
    writeCounted_ok_iff] at hw
  simp only [copy, CopyM.bind_some_iff, CopyM.pure_some_iff, copyNode_yeBlock_some_iff] at hc
  obtain ⟨_, _, rfl, wt, _, hwt, wp, _, hwp, _, _, ⟨ws, hws, rfl⟩, _, _, rfl, rfl, rfl⟩ := hw
  obtain ⟨_, _, ⟨id, k₁, hheader, table', k₂, hct, point', k₃, hcp, statements', hcs, rfl⟩, rfl, rfl⟩ := hc
  simp only [List.length_append, List.length_cons] at hfuel
  obtain ⟨f, rfl⟩ : ∃ f, fuel = f + 1 := ⟨fuel - 1, by omega⟩
  obtain ⟨rfl, hworld, hk₁⟩ := linked_copyHeader hk hheader
  have hpush : (writerStack B F).pushNamespace info.ns false =
      writerStack B (F ++ [Frame.block info.id k.world.next]) :=
    writerStack_push F (.block info.id k.world.next)
  rw [hpush] at hwt
  obtain ⟨F₁, hext₁, rfl, hk₂, hread₁⟩ :=
    simulates_blockTable iht hwt hct hk₁ htable (show wt.length ≤ f by omega)
  obtain ⟨rfl, rfl, hreadp⟩ := reads_point hk₂ hwp hcp hpoint
  obtain ⟨F₂, hext₂, rfl, hk₃, hread₂⟩ :=
    simulates_statements ihs hws hcs hk₂ (show ws.length ≤ f by omega) []
  obtain ⟨hle, G, rfl, hG⟩ := hext₁.trans hext₂
  have hlink := hk₃.blocks info.id k.world.next (by simp)
  have hlt : k.world.next < k₁.world.next := hk₁.fresh info.id _ (hk₁.blocks _ _ (by simp))
  have hlater (fr : Frame) (hfr : fr ∈ G) := later_frame hk₃ (b := info.id) (by simp)
    (List.mem_append_right _ hfr) fun c c' h => Nat.lt_of_lt_of_le hlt (hG c c' (h ▸ hfr))
  have hstack : (writerStack B (F ++ [Frame.block info.id k.world.next] ++ G)).popUptoNamespace info.ns =
      writerStack B F := by
    rw [List.append_assoc, List.singleton_append]
    exact writerStack_popUpto F _ fun fr hfr => (hlater fr hfr).1
  refine ⟨⟨F, .of_next F (hlt.le.trans hle), hstack, (Linked.of_append (Linked.of_append hk₃)), ?_⟩, ?_⟩
  · refine Decides.congr ?_ readable_yeBlock.symm
    refine Reads.bind_decides (w := [27]) (reads_next _ _ _) ?_
    rw [if_neg (by decide), if_neg (by decide)]
    refine (reads_writeCharp hname _).bind_decides ?_
    refine (reads_writeInt32 info.kind.code_lt _).bind_decides ?_
    simp only [BlockKind.getElem?_code]
    refine (reads_getState _).bind_decides_nil ((reads_modifyState _ _).bind_decides_nil ?_)
    refine (reads_modifyState _ _).bind_decides_nil ?_
    rw [show (readerState E L B F k.world).world = k.world from rfl,
      show { readerState E L B F k.world with world := k.world.newBlock } =
        readerState E L B F k.world.newBlock from rfl, readerState_push F info.id]
    refine (reads_writeInt32 hcount _).bind_decides ?_
    refine (reads_writeSymbols hrt hcount _ _).bind_decides ?_
    rw [← hworld]
    refine hread₁.bind (hreadp.bind_decides ((reads_writeInt32 hstatements _).bind_decides ?_))
    refine hread₂.map ((reads_modifyState _ _).bind_nil ?_)
    rw [List.append_assoc F, List.singleton_append,
      readerState_popUpto F info.id _ fun fr hfr => (hlater fr hfr).2]
    exact Reads.pure _ _
  · intro info' hinfo'
    obtain rfl : info = info' := Option.some.inj hinfo'
    exact ⟨hstack, _, rfl, hlink, le_rfl⟩

end Nodes

end Bytecode

end YastCore
