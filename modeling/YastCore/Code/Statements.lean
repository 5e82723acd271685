import YastCore.Code.Expressions

/-!
# Statements in bytecode

For each class of statements, what its stream constructor makes of the bytes of its `toStream`.
-/

namespace YastCore

namespace Bytecode

open Codec YCode

variable {E : WriterEnv} {L : ReaderEnv} {B : Base} (line : UInt32)

/-! ### Definitions -/

lemma follows_ysTypedef (hrt : RoundTrips E L) {name : CText} (hname : name.Fits) (type : TypeId) :
    Follows E L B (.node (.ysTypedef line name type)) := by
  refine follows_of_statement 35 rfl rfl line True (by simp) fun f F k w s n' k' hw hc hk => ?_
  simp only [toStreamNode, Exec.pure_ok_iff] at hw
  simp only [copyNode, CopyM.pure_some_iff] at hc
  obtain ⟨rfl, rfl⟩ := hw
  obtain ⟨rfl, rfl⟩ := hc
  refine ⟨_, rfl, fun hlen => simulates_of_reads hk ?_⟩
  exact (reads_writeCharp hname _).bind ((hrt.type type _).bind_nil (Reads.pure _ _))

lemma follows_ysVariable {entry : EntryRef} {code : YCode} (hfits : EntryFits entry)
    (ih : Follows E L B code) : Follows E L B (.node (.ysVariable line entry code)) := by
  refine follows_of_statement 36 rfl rfl line (Readable E code) (by simp)
    fun f F k w s n' k' hw hc hk => ?_
  simp only [toStreamNode, Exec.bind_ok_iff, Exec.pure_ok_iff] at hw
  simp only [copyNode, CopyM.bind_some_iff, CopyM.pure_some_iff, copyEntry_some_iff,
    modifyWorld_some_iff] at hc
  obtain ⟨we, _, hwe, w, _, hw, rfl, rfl⟩ := hw
  obtain ⟨entry', _, ⟨he, rfl⟩, code', k₁, hc, _, _, rfl, rfl, rfl⟩ := hc
  obtain ⟨rfl, hread⟩ := reads_entryPtr hk hwe he hfits
  refine ⟨_, rfl, fun hlen => ?_⟩
  rw [List.length_append] at hlen
  refine .after hread (Extends.refl F k) ?_
  rw [← List.append_nil w]
  refine (ih hw hc hk (by omega)).1.bind_last ?_
  rintro F₁ rfl hk₁
  refine Simulates.after (w := []) (k := { k₁ with world := codeSet L k₁.world entry' code' })
    (reads_setCode entry' code' k₁.world) (.of_next F₁ (next_codeSet ..).ge) ?_
  exact simulates_of_reads (hk₁.codeSet entry' code') (Reads.pure _ _)

/-- The prototype of a function comes with its statement, or has come with the table. -/
lemma simulates_prototype {entry entry' : EntryRef} {declaration : YCode} {F : List Frame}
    {k k' : Links} {w : Bytes} {s : NamespaceStack} {u : Unit} {f : Nat}
    (ih : (E.symbol entry).global = false → needDeclaration declaration = true →
      Follows E L B declaration)
    (hw : writeIf (!(E.symbol entry).global)
      (writeFunction (needDeclaration declaration) (toStream E declaration)) (writerStack B F) =
        .ok (w, s)) (he : linkLocal k entry = some entry')
    (hc : copyPrototype L entry' (E.symbol entry).global (needDeclaration declaration)
      (copy E L declaration) k = some (u, k')) (hk : Linked E L F k) (hlen : w.length ≤ f) :
    Simulates E L B (readPrototype L (readCodeFuel L f) entry') F k w s
      ((E.symbol entry).global = false → needDeclaration declaration = true →
        Readable E declaration) () k' := by
  refine Simulates.after (w := []) (reads_getState _) (Extends.refl F k) ?_
  rw [show (readerState E L B F k.world).world = k.world from rfl, symbolAt_of_linkLocal hk he,
    Option.map_some]
  cases hglobal : (E.symbol entry).global with
  | true =>
    simp only [hglobal] at hw hc
    obtain ⟨rfl, rfl⟩ := Exec.pure_ok_iff.mp hw
    obtain ⟨-, rfl⟩ := CopyM.pure_some_iff.mp hc
    rw [if_pos rfl]
    exact (simulates_of_reads hk (Reads.pure _ _)).congr (by simp)
  | false =>
    simp only [hglobal, Bool.not_false] at hw hc
    simp only [copyPrototype, Bool.false_eq_true, if_false, CopyM.bind_some_iff,
      modifyWorld_some_iff] at hc
    obtain ⟨declaration', k₁, hc, rfl⟩ := hc
    have hfunction : Follows E L B (.node (.ycFunction declaration .null)) :=
      follows_ycFunction (ih hglobal) .null
    have hcopy : copy E L (.node (.ycFunction declaration .null)) k =
        some (.node (.ycFunction declaration' .null), k₁) := by
      simp only [copy, copyNode, CopyM.bind_some_iff, CopyM.pure_some_iff]
      exact ⟨_, _, ⟨_, _, hc, rfl, rfl⟩, rfl, rfl⟩
    have hwrite : toStream E (.node (.ycFunction declaration .null)) (writerStack B F) = .ok (w, s) := by
      simp only [toStream, toStreamNode]
      exact hw
    rw [if_neg (by simp), ← List.append_nil w]
    refine Simulates.congr ((hfunction hwrite hcopy hk hlen).1.bind_last ?_) (by simp)
    rintro F₁ rfl hk₁
    exact ⟨F₁, .of_next F₁ (next_codeSet ..).ge, rfl, hk₁.codeSet _ _,
      (reads_setCode entry' _ k₁.world).decides⟩

lemma follows_ysFunction {entry : EntryRef} {declaration definition : YCode}
    (hfits : EntryFits entry)
    (ih : (E.symbol entry).global = false → needDeclaration declaration = true →
      Follows E L B declaration) (ihd : Follows E L B definition) :
    Follows E L B (.node (.ysFunction line entry declaration definition)) := by
  refine follows_of_statement 37 rfl rfl line
    (((E.symbol entry).global = false → needDeclaration declaration = true → Readable E declaration) ∧
      Readable E definition) (by simp; grind) fun f F k w s n' k' hw hc hk => ?_
  simp only [toStreamNode, Exec.bind_ok_iff, Exec.pure_ok_iff] at hw
  simp only [copyNode, CopyM.bind_some_iff, CopyM.pure_some_iff, copyLocal_some_iff] at hc
  obtain ⟨we, _, hwe, wf, _, hwf, wd, _, hwd, rfl, rfl⟩ := hw
  obtain ⟨entry', _, ⟨he, rfl⟩, _, k₁, hcp, ⟨_, _⟩, k₂, hcd, rfl, rfl⟩ := hc
  obtain ⟨rfl, hread⟩ := reads_entryPtr hk hwe (linkEntry_of_linkLocal he) hfits
  refine ⟨_, rfl, fun hlen => ?_⟩
  simp only [List.length_append] at hlen
  refine .after hread (Extends.refl F k) ?_
  refine (simulates_prototype ih hwf he hcp hk (by omega)).bind ?_
  rintro F₁ rfl hk₁
  exact (simulates_definition ihd hwd hcd hk₁ (by omega)).map fun st => Reads.pure _ st

lemma follows_ysAssign {entry : EntryRef} {code : YCode} (hfits : EntryFits entry)
    (ih : Follows E L B code) : Follows E L B (.node (.ysAssign line entry code)) := by
  refine follows_of_statement 38 rfl rfl line (Readable E code) (by simp)
    fun f F k w s n' k' hw hc hk => ?_
  simp only [toStreamNode, Exec.bind_ok_iff, Exec.pure_ok_iff] at hw
  simp only [copyNode, CopyM.bind_some_iff, CopyM.pure_some_iff, copyEntry_some_iff] at hc
  obtain ⟨we, _, hwe, w, _, hw, rfl, rfl⟩ := hw
  obtain ⟨_, _, ⟨he, rfl⟩, _, _, hc, rfl, rfl⟩ := hc
  obtain ⟨rfl, hread⟩ := reads_entryPtr hk hwe he hfits
  refine ⟨_, rfl, fun hlen => ?_⟩
  rw [List.length_append] at hlen
  refine .after hread (Extends.refl F k) ?_
  exact (ih hw hc hk (by omega)).1.map fun st => Reads.pure _ st

lemma follows_ysBracket {entry : EntryRef} {arg code : YCode} (hfits : EntryFits entry)
    (ih₁ : Follows E L B arg) (ih₂ : Follows E L B code) :
    Follows E L B (.node (.ysBracket line entry arg code)) := by
  refine follows_of_statement 39 rfl rfl line (Readable E arg ∧ Readable E code) (by simp)
    fun f F k w s n' k' hw hc hk => ?_
  simp only [toStreamNode, Exec.bind_ok_iff, Exec.pure_ok_iff] at hw
  simp only [copyNode, CopyM.bind_some_iff, CopyM.pure_some_iff, copyEntry_some_iff] at hc
  obtain ⟨we, _, hwe, w₁, _, hw₁, w₂, _, hw₂, rfl, rfl⟩ := hw
  obtain ⟨_, _, ⟨he, rfl⟩, _, _, hc₁, _, _, hc₂, rfl, rfl⟩ := hc
  obtain ⟨rfl, hread⟩ := reads_entryPtr hk hwe he hfits
  refine ⟨_, rfl, fun hlen => ?_⟩
  simp only [List.length_append] at hlen
  refine .after hread (Extends.refl F k) ((ih₁ hw₁ hc₁ hk (by omega)).1.bind ?_)
  rintro F₁ rfl hk₁
  exact (ih₂ hw₂ hc₂ hk₁ (by omega)).1.map fun st => Reads.pure _ st

/-! ### Control flow -/

lemma follows_ysIf {condition ifTrue ifFalse : YCode} (ih : Follows E L B condition)
    (ih₁ : Follows E L B ifTrue) (ih₂ : Follows E L B ifFalse) :
    Follows E L B (.node (.ysIf line condition ifTrue ifFalse)) := by
  refine follows_of_statement 40 rfl rfl line
    (Readable E condition ∧ Readable E ifTrue ∧ Readable E ifFalse) (by simp)
    fun f F k w s n' k' hw hc hk => ?_
  simp only [toStreamNode, Exec.bind_ok_iff, Exec.pure_ok_iff] at hw
  simp only [copyNode, CopyM.bind_some_iff, CopyM.pure_some_iff] at hc
  obtain ⟨w, _, hw, w₁, _, hw₁, w₂, _, hw₂, rfl, rfl⟩ := hw
  obtain ⟨_, _, hc, _, _, hc₁, _, _, hc₂, rfl, rfl⟩ := hc
  refine ⟨_, rfl, fun hlen => ?_⟩
  simp only [List.length_append] at hlen
  refine (ih hw hc hk (by omega)).1.bind ?_
  rintro F₁ rfl hk₁
  refine (simulates_optional ih₁ hw₁ hc₁ hk₁ (by omega)).bind ?_
  rintro F₂ rfl hk₂
  exact (simulates_optional ih₂ hw₂ hc₂ hk₂ (by omega)).map fun st => Reads.pure _ st

lemma follows_ysWhile {condition loop : YCode} (ih : Follows E L B condition)
    (ih₁ : Follows E L B loop) : Follows E L B (.node (.ysWhile line condition loop)) := by
  refine follows_of_statement 41 rfl rfl line (Readable E condition ∧ Readable E loop) (by simp)
    fun f F k w s n' k' hw hc hk => ?_
  simp only [toStreamNode, Exec.bind_ok_iff, Exec.pure_ok_iff] at hw
  simp only [copyNode, CopyM.bind_some_iff, CopyM.pure_some_iff] at hc
  obtain ⟨w, _, hw, wl, _, hwl, rfl, rfl⟩ := hw
  obtain ⟨_, _, hc, _, _, hcl, rfl, rfl⟩ := hc
  refine ⟨_, rfl, fun hlen => ?_⟩
  simp only [List.length_append] at hlen
  refine (ih hw hc hk (by omega)).1.bind ?_
  rintro F₁ rfl hk₁
  exact (simulates_optional ih₁ hwl hcl hk₁ (by omega)).map fun st => Reads.pure _ st

lemma follows_ysDo {condition loop : YCode} (ih : Follows E L B condition)
    (ih₁ : Follows E L B loop) : Follows E L B (.node (.ysDo line condition loop)) := by
  refine follows_of_statement 42 rfl rfl line (Readable E loop ∧ Readable E condition)
    (by simp [and_comm]) fun f F k w s n' k' hw hc hk => ?_
  simp only [toStreamNode, Exec.bind_ok_iff, Exec.pure_ok_iff] at hw
  simp only [copyNode, CopyM.bind_some_iff, CopyM.pure_some_iff] at hc
  obtain ⟨wl, _, hwl, w, _, hw, rfl, rfl⟩ := hw
  obtain ⟨_, _, hcl, _, _, hc, rfl, rfl⟩ := hc
  refine ⟨_, rfl, fun hlen => ?_⟩
  simp only [List.length_append] at hlen
  refine (simulates_optional ih₁ hwl hcl hk (by omega)).bind ?_
  rintro F₁ rfl hk₁
  exact (ih hw hc hk₁ (by omega)).1.map fun st => Reads.pure _ st

lemma follows_ysRepeat {condition loop : YCode} (ih : Follows E L B condition)
    (ih₁ : Follows E L B loop) : Follows E L B (.node (.ysRepeat line condition loop)) := by
  refine follows_of_statement 43 rfl rfl line (Readable E loop ∧ Readable E condition)
    (by simp [and_comm]) fun f F k w s n' k' hw hc hk => ?_
  simp only [toStreamNode, Exec.bind_ok_iff, Exec.pure_ok_iff] at hw
  simp only [copyNode, CopyM.bind_some_iff, CopyM.pure_some_iff] at hc
  obtain ⟨wl, _, hwl, w, _, hw, rfl, rfl⟩ := hw
  obtain ⟨_, _, hcl, _, _, hc, rfl, rfl⟩ := hc
  refine ⟨_, rfl, fun hlen => ?_⟩
  simp only [List.length_append] at hlen
  refine (simulates_optional ih₁ hwl hcl hk (by omega)).bind ?_
  rintro F₁ rfl hk₁
  exact (ih hw hc hk₁ (by omega)).1.map fun st => Reads.pure _ st

lemma follows_ysExpression {expr : YCode} (ih : Follows E L B expr) :
    Follows E L B (.node (.ysExpression line expr)) := by
  refine follows_of_statement 44 rfl rfl line (Readable E expr) (by simp)
    fun f F k w s n' k' hw hc hk => ?_
  simp only [toStreamNode, Exec.bind_ok_iff, Exec.pure_ok_iff] at hw
  simp only [copyNode, CopyM.bind_some_iff, CopyM.pure_some_iff] at hc
  obtain ⟨w, _, hw, rfl, rfl⟩ := hw
  obtain ⟨_, _, hc, rfl, rfl⟩ := hc
  exact ⟨_, rfl, fun hlen => (ih hw hc hk hlen).1.map fun st => Reads.pure _ st⟩

lemma follows_ysReturn {value : YCode} (ih : Follows E L B value) :
    Follows E L B (.node (.ysReturn line value)) := by
  refine follows_of_statement 45 rfl rfl line (Readable E value) (by simp)
    fun f F k w s n' k' hw hc hk => ?_
  simp only [toStreamNode, Exec.bind_ok_iff, Exec.pure_ok_iff] at hw
  simp only [copyNode, CopyM.bind_some_iff, CopyM.pure_some_iff] at hc
  obtain ⟨w, _, hw, rfl, rfl⟩ := hw
  obtain ⟨_, _, hc, rfl, rfl⟩ := hc
  exact ⟨_, rfl, fun hlen => (simulates_optional ih hw hc hk hlen).map fun st => Reads.pure _ st⟩

lemma follows_ysBreak : Follows E L B (.node (.ysBreak line)) := by
  refine follows_of_statement 46 rfl rfl line True (by simp) fun f F k w s n' k' hw hc hk => ?_
  simp only [toStreamNode, Exec.pure_ok_iff] at hw
  simp only [copyNode, CopyM.pure_some_iff] at hc
  obtain ⟨rfl, rfl⟩ := hw
  obtain ⟨rfl, rfl⟩ := hc
  exact ⟨[], by simp, fun hlen => simulates_of_reads hk (Reads.pure _ _)⟩

lemma follows_ysContinue : Follows E L B (.node (.ysContinue line)) := by
  refine follows_of_statement 47 rfl rfl line True (by simp) fun f F k w s n' k' hw hc hk => ?_
  simp only [toStreamNode, Exec.pure_ok_iff] at hw
  simp only [copyNode, CopyM.pure_some_iff] at hc
  obtain ⟨rfl, rfl⟩ := hw
  obtain ⟨rfl, rfl⟩ := hc
  exact ⟨[], by simp, fun hlen => simulates_of_reads hk (Reads.pure _ _)⟩

lemma follows_ysBlock {block : YCode} (ih : Follows E L B block) :
    Follows E L B (.node (.ysBlock line block)) := by
  refine follows_of_statement 52 rfl rfl line (Readable E block) (by simp)
    fun f F k w s n' k' hw hc hk => ?_
  simp only [toStreamNode, Exec.bind_ok_iff, Exec.pure_ok_iff] at hw
  simp only [copyNode, CopyM.bind_some_iff, CopyM.pure_some_iff] at hc
  obtain ⟨w, _, hw, rfl, rfl⟩ := hw
  obtain ⟨_, _, hc, rfl, rfl⟩ := hc
  exact ⟨_, rfl, fun hlen => (ih hw hc hk hlen).1.map fun st => Reads.pure _ st⟩

lemma follows_ysSwitch {condition block : YCode} {cases : List (YCPValue × Int32)}
    (defaultcase : Int32) (hlt : cases.length < 2 ^ 31)
    (hcases : ∀ c ∈ cases, c.1.Constant E.isprint) (ih : Follows E L B condition)
    (ih₁ : Follows E L B block) :
    Follows E L B (.node (.ysSwitch line condition cases defaultcase block)) := by
  refine follows_of_statement 53 rfl rfl line
    (Readable E condition ∧ (∀ c ∈ cases, c.1.Fits E.isprint) ∧ Readable E block)
    (by simp [and_left_comm]) fun f F k w s n' k' hw hc hk => ?_
  simp only [toStreamNode, Exec.bind_ok_iff, Exec.pure_ok_iff, writeCounted_ok_iff] at hw
  simp only [copyNode, CopyM.bind_some_iff, CopyM.pure_some_iff] at hc
  obtain ⟨w, _, hw, _, _, ⟨wc, hwc, rfl⟩, wb, _, hwb, rfl, rfl⟩ := hw
  obtain ⟨_, _, hc, _, _, hcb, rfl, rfl⟩ := hc
  obtain ⟨rfl, rfl⟩ := writeCases_ok hcases hwc
  refine ⟨_, rfl, fun hlen => ?_⟩
  simp only [List.length_append] at hlen
  refine (ih hw hc hk (by omega)).1.bind ?_
  rintro F₁ rfl hk₁
  rw [if_neg (by simp [isNull_copy hw hc]), List.append_assoc]
  refine .first (reads_writeInt32 (by omega)) ?_
  rw [if_pos hlt]
  refine Simulates.bind ⟨F₁, Extends.refl F₁ _, rfl, hk₁, readCases_decides hcases _⟩ ?_
  intro F₂ hF hk₂
  rw [hF] at hwb
  refine .first (reads_int defaultcase) ((ih₁ hwb hcb hk₂ (by omega)).1.map fun st => ?_)
  rw [if_neg (by simp [isNull_copy hwb hcb])]
  exact Reads.pure _ st

/-! ### Texts and imports -/

lemma follows_ysTextdomain {domain : CText} (hfits : domain.Fits) :
    Follows E L B (.node (.ysTextdomain line domain)) := by
  refine follows_of_statement 48 rfl rfl line True (by simp) fun f F k w s n' k' hw hc hk => ?_
  simp only [toStreamNode, Exec.pure_ok_iff] at hw
  simp only [copyNode, CopyM.pure_some_iff] at hc
  obtain ⟨rfl, rfl⟩ := hw
  obtain ⟨rfl, rfl⟩ := hc
  refine ⟨_, rfl, fun hlen => simulates_of_reads hk ?_⟩
  exact (reads_writeCharp hfits _).bind_nil (Reads.pure _ _)

lemma follows_ysInclude {filename : CText} (hfits : filename.Fits) (skipped : Bool) :
    Follows E L B (.node (.ysInclude line filename skipped)) := by
  refine follows_of_statement 49 rfl rfl line True (by simp) fun f F k w s n' k' hw hc hk => ?_
  simp only [toStreamNode, Exec.pure_ok_iff] at hw
  simp only [copyNode, CopyM.pure_some_iff] at hc
  obtain ⟨rfl, rfl⟩ := hw
  obtain ⟨rfl, rfl⟩ := hc
  refine ⟨_, rfl, fun hlen => simulates_of_reads hk ?_⟩
  exact (reads_writeCharp hfits _).bind ((reads_writeBool skipped _).bind_nil (Reads.pure _ _))

lemma follows_ysFilename {filename : CText} (hfits : filename.Fits) :
    Follows E L B (.node (.ysFilename line filename)) := by
  refine follows_of_statement 50 rfl rfl line True (by simp) fun f F k w s n' k' hw hc hk => ?_
  simp only [toStreamNode, Exec.pure_ok_iff] at hw
  simp only [copyNode, CopyM.pure_some_iff] at hc
  obtain ⟨rfl, rfl⟩ := hw
  obtain ⟨rfl, rfl⟩ := hc
  refine ⟨_, rfl, fun hlen => simulates_of_reads hk ?_⟩
  exact (reads_writeCharp hfits _).bind_nil (Reads.pure _ _)

/-- An import stays on both stacks until the block around it is closed. -/
lemma follows_ysImport (hrt : RoundTrips E L) {name : CText} (hname : name.Fits) :
    Follows E L B (.node (.ysImport line name)) := by
  refine follows_of_statement 51 rfl rfl line True (by simp) fun f F k w s n' k' hw hc hk => ?_
  simp only [toStreamNode, Exec.bind_ok_iff, Exec.pure_ok_iff, Exec.modify_ok_iff] at hw
  simp only [copyNode, CopyM.bind_some_iff, CopyM.pure_some_iff, guardCopy_some_iff,
    Bool.and_eq_true, List.all_eq_true] at hc
  obtain ⟨_, _, rfl, rfl, rfl⟩ := hw
  obtain ⟨_, _, ⟨⟨hmodule, hprovided⟩, rfl⟩, rfl, rfl⟩ := hc
  refine ⟨_, rfl, fun hlen => ⟨F ++ [Frame.module name.text], ⟨le_rfl, _, rfl, by simp⟩, ?_, ?_, ?_⟩⟩
  · exact writerStack_push F (.module name.text)
  · refine ⟨fun b b' hb => hk.blocks b b' (by simpa using hb), fun m hm => ?_, hk.fresh, hk.symbols⟩
    rcases List.mem_append.mp hm with hm | hm
    · exact hk.modules m hm
    · obtain rfl : m = name.text := by simpa using hm
      exact hprovided
  · exact (reads_import hrt hname hmodule hprovided line k.world).decides

end Bytecode

end YastCore
