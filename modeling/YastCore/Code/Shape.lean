import YastCore.Code.Exact

/-!
# Which trees come back

A tree of the structural constructors comes back as its copy, with its constants, exactly when its
counts fit and its constants hold no NUL.
-/

namespace YastCore

open Codec

namespace Node

/-- Everything but functions and module tables, which come back as the symbol entries have them. -/
def Structural : Node YCode → Prop
  | ycFunction _ _ => False
  | ysFunction _ _ _ _ => False
  | yeBlock info _ _ _ => info.hasTable = false
  | _ => True

/-- The constants of a node are carried as they are. -/
def KeepsConstants : Node YCode → Prop
  | yConst _ (.entry _) => True
  | yConst _ v => v.carried = v
  | ysSwitch _ _ cases _ _ => ∀ c ∈ cases, c.1.carried = c.1
  | _ => True

/-- No symbol, term name or path component of a constant holds a NUL. -/
def NulFreeConstants : Node YCode → Prop
  | yConst _ (.entry _) => True
  | yConst _ v => v.NulFree
  | ysSwitch _ _ cases _ _ => ∀ c ∈ cases, c.1.NulFree
  | _ => True

end Node

namespace Bytecode

open YCode

variable {E : WriterEnv} {L : ReaderEnv} {k k' : Links}

/-! ### From the copy back to the tree -/

lemma entryFits_of_link {e e' : EntryRef} (h : linkEntry E L k e = some e') (he : EntryFits e') :
    EntryFits e := by
  obtain ⟨ns, p⟩ := e
  cases ns with
  | module m => trivial
  | block b =>
    simp only [linkEntry, linkLocal] at h
    split at h
    · split at h
      · obtain rfl := Option.some.inj h
        exact he
      · cases h
    · cases h

lemma chainFits_of_copy {l l' : List (EntryRef × UInt32)} (h : copyChain E L l k = some (l', k'))
    (hl : ∀ q ∈ l', EntryFits q.1) : ∀ q ∈ l, EntryFits q.1 := by
  induction l generalizing l' k k' with
  | nil => simp
  | cons q l ih =>
    simp only [copyChain, CopyM.bind_some_iff, CopyM.pure_some_iff, copyEntry_some_iff] at h
    obtain ⟨e', _, ⟨he, rfl⟩, l₂, _, hl₂, rfl, rfl⟩ := h
    rw [List.forall_mem_cons] at hl ⊢
    exact ⟨entryFits_of_link he hl.1, ih hl₂ hl.2⟩

lemma pointFits_of_copy {p p' : Point} (h : copyPoint E L p k = some (p', k')) (hp : p'.Fits) :
    p.Fits := by
  simp only [copyPoint, CopyM.bind_some_iff, CopyM.pure_some_iff, copyEntry_some_iff] at h
  obtain ⟨e', _, ⟨he, rfl⟩, outer', _, houter, rfl, rfl⟩ := h
  exact ⟨entryFits_of_link he hp.1, chainFits_of_copy houter hp.2⟩

variable (E L) in
/-- `c'` is a copy of `c`, whatever was copied before. -/
def IsCopy (c c' : YCode) : Prop := ∃ k k', copy E L c k = some (c', k')

lemma copyList_forall₂ {l l' : List YCode} (h : copyList E L l k = some (l', k')) :
    List.Forall₂ (IsCopy E L) l l' := by
  induction l generalizing l' k k' with
  | nil =>
    simp only [copyList, CopyM.pure_some_iff] at h
    obtain ⟨rfl, -⟩ := h
    exact .nil
  | cons c l ih =>
    simp only [copyList, CopyM.bind_some_iff, CopyM.pure_some_iff] at h
    obtain ⟨c', _, hc, l₂, _, hl, rfl, rfl⟩ := h
    exact .cons ⟨_, _, hc⟩ (ih hl)

lemma copyStatements_forall₂ {l l' : List YCode} (h : copyStatements E L l k = some (l', k')) :
    List.Forall₂ (IsCopy E L) l l' := by
  induction l generalizing l' k k' with
  | nil =>
    simp only [copyStatements, CopyM.pure_some_iff] at h
    obtain ⟨rfl, -⟩ := h
    exact .nil
  | cons c l ih =>
    simp only [copyStatements, CopyM.bind_some_iff, CopyM.pure_some_iff, guardCopy_some_iff] at h
    obtain ⟨c', _, hc, _, _, ⟨-, rfl⟩, l₂, _, hl, rfl, rfl⟩ := h
    exact .cons ⟨_, _, hc⟩ (ih hl)

lemma copyEntries_forall₂ {l l' : List (YCode × YCode)} (h : copyEntries E L l k = some (l', k')) :
    List.Forall₂ (fun e e' => IsCopy E L e.1 e'.1 ∧ IsCopy E L e.2 e'.2) l l' := by
  induction l generalizing l' k k' with
  | nil =>
    simp only [copyEntries, CopyM.pure_some_iff] at h
    obtain ⟨rfl, -⟩ := h
    exact .nil
  | cons e l ih =>
    simp only [copyEntries, CopyM.bind_some_iff, CopyM.pure_some_iff] at h
    obtain ⟨key, _, hk, value, _, hv, l₂, _, hl, rfl, rfl⟩ := h
    exact .cons ⟨⟨_, _, hk⟩, _, _, hv⟩ (ih hl)

/-- Cases in the order of the map are added at its end. -/
lemma caseInsert_last {v : YCPValue} {index : Int32} {cases : List (YCPValue × Int32)}
    (h : ∀ c ∈ cases, YCPValue.keyLess c.1 v = true) :
    caseInsert v index cases = cases ++ [(v, index)] := by
  induction cases with
  | nil => rfl
  | cons c cases ih =>
    rw [List.forall_mem_cons] at h
    rw [caseInsert, if_pos h.1, ih h.2, List.cons_append]

lemma carriedCases_eq_self {cases : List (YCPValue × Int32)}
    (hkeep : ∀ c ∈ cases, c.1.carried = c.1)
    (hordered : cases.Pairwise fun c c' => YCPValue.keyLess c.1 c'.1 = true) :
    carriedCases cases = cases := by
  have hfold (done todo : List (YCPValue × Int32)) (hkeep : ∀ c ∈ todo, c.1.carried = c.1)
      (hordered : (done ++ todo).Pairwise fun c c' => YCPValue.keyLess c.1 c'.1 = true) :
      todo.foldl (fun m c => caseInsert c.1.carried c.2 m) done = done ++ todo := by
    induction todo generalizing done with
    | nil => simp
    | cons c todo ih =>
      rw [List.forall_mem_cons] at hkeep
      have hlast : ∀ c' ∈ done, YCPValue.keyLess c'.1 c.1 = true :=
        fun c' hc' => (List.pairwise_append.mp hordered).2.2 c' hc' c List.mem_cons_self
      rw [List.foldl_cons, hkeep.1, caseInsert_last hlast, ih _ hkeep.2 (by simpa using hordered),
        List.append_assoc, List.singleton_append]
  exact hfold [] cases hkeep hordered

/-- The counts of a node are those of its copy. -/
lemma sized_of_copyNode {n n' : Node YCode} (hn : copyNode E L n k = some (n', k'))
    (hstructural : n.Structural) (hkeep : n.KeepsConstants) (hconstants : n.Constants E.isprint)
    (hsized : n'.Sized) : n.Sized := by
  cases n with
  | yConst kind v =>
    cases v with
    | entry e =>
      simp only [copyNode, copyConst, CopyM.bind_some_iff, CopyM.pure_some_iff,
        copyEntry_some_iff] at hn
      obtain ⟨_, _, -, _, _, ⟨he, rfl⟩, rfl, rfl⟩ := hn
      exact entryFits_of_link he hsized
    | _ => trivial
  | yeBlock info table point statements =>
    rw [copyNode_yeBlock_some_iff] at hn
    obtain ⟨id, k₁, -, table', k₂, -, point', k₃, hp, statements', hs, rfl⟩ := hn
    obtain ⟨hname, hcount, -, hpoint, hlen⟩ := hsized
    have htable : info.hasTable = false := hstructural
    refine ⟨hname, hcount, fun h => ?_, pointFits_of_copy hp hpoint, ?_⟩
    · rw [htable] at h
      cases h
    · rwa [(copyStatements_forall₂ hs).length_eq]
  | ysSwitch line condition cases defaultcase block =>
    simp only [copyNode, CopyM.bind_some_iff, CopyM.pure_some_iff] at hn
    obtain ⟨_, _, -, _, _, -, rfl, -⟩ := hn
    rwa [carriedCases_eq_self hkeep hconstants.2] at hsized
  | yeList elements =>
    simp only [copyNode, CopyM.bind_some_iff, CopyM.pure_some_iff] at hn
    obtain ⟨l, _, hl, rfl, -⟩ := hn
    exact (copyList_forall₂ hl).length_eq.trans_lt hsized
  | yeMap entries =>
    simp only [copyNode, CopyM.bind_some_iff, CopyM.pure_some_iff] at hn
    obtain ⟨l, _, hl, rfl, -⟩ := hn
    exact (copyEntries_forall₂ hl).length_eq.trans_lt hsized
  | yeTerm name parameters =>
    simp only [copyNode, CopyM.bind_some_iff, CopyM.pure_some_iff] at hn
    obtain ⟨l, _, hl, rfl, -⟩ := hn
    exact ⟨hsized.1, (copyList_forall₂ hl).length_eq.trans_lt hsized.2⟩
  | yeBuiltin type decl parameterblock parameters =>
    simp only [copyNode, CopyM.bind_some_iff, CopyM.pure_some_iff] at hn
    obtain ⟨_, _, -, _, _, -, l, _, hl, rfl, -⟩ := hn
    exact (copyList_forall₂ hl).length_eq.trans_lt hsized
  | yeFunction entry parameters =>
    simp only [copyNode, CopyM.bind_some_iff, CopyM.pure_some_iff, copyEntry_some_iff] at hn
    obtain ⟨_, _, ⟨he, rfl⟩, l, _, hl, rfl, -⟩ := hn
    exact ⟨entryFits_of_link he hsized.1, (copyList_forall₂ hl).length_eq.trans_lt hsized.2⟩
  | yeFunctionPointer entry parameters =>
    simp only [copyNode, CopyM.bind_some_iff, CopyM.pure_some_iff, copyEntry_some_iff] at hn
    obtain ⟨_, _, ⟨he, rfl⟩, l, _, hl, rfl, -⟩ := hn
    exact ⟨entryFits_of_link he hsized.1, (copyList_forall₂ hl).length_eq.trans_lt hsized.2⟩
  | yeVariable entry =>
    simp only [copyNode, CopyM.bind_some_iff, CopyM.pure_some_iff, copyEntry_some_iff] at hn
    obtain ⟨_, _, ⟨he, rfl⟩, rfl, -⟩ := hn
    exact entryFits_of_link he hsized
  | yeReference entry =>
    simp only [copyNode, CopyM.bind_some_iff, CopyM.pure_some_iff, copyEntry_some_iff] at hn
    obtain ⟨_, _, ⟨he, rfl⟩, rfl, -⟩ := hn
    exact entryFits_of_link he hsized
  | ysVariable line entry code =>
    simp only [copyNode, CopyM.bind_some_iff, CopyM.pure_some_iff, copyEntry_some_iff] at hn
    obtain ⟨_, _, ⟨he, rfl⟩, _, _, -, _, _, -, rfl, -⟩ := hn
    exact entryFits_of_link he hsized
  | ysAssign line entry code =>
    simp only [copyNode, CopyM.bind_some_iff, CopyM.pure_some_iff, copyEntry_some_iff] at hn
    obtain ⟨_, _, ⟨he, rfl⟩, _, _, -, rfl, -⟩ := hn
    exact entryFits_of_link he hsized
  | ysBracket line entry arg code =>
    simp only [copyNode, CopyM.bind_some_iff, CopyM.pure_some_iff, copyEntry_some_iff] at hn
    obtain ⟨_, _, ⟨he, rfl⟩, _, _, -, _, _, -, rfl, -⟩ := hn
    exact entryFits_of_link he hsized
  | ycLocale locale domain =>
    simp only [copyNode, CopyM.pure_some_iff] at hn
    rwa [← hn.1] at hsized
  | yeLocale singular plural count domain =>
    simp only [copyNode, CopyM.bind_some_iff, CopyM.pure_some_iff] at hn
    obtain ⟨_, _, -, rfl, -⟩ := hn
    exact hsized
  | ysTypedef line name type =>
    simp only [copyNode, CopyM.pure_some_iff] at hn
    rwa [← hn.1] at hsized
  | ysTextdomain line domain =>
    simp only [copyNode, CopyM.pure_some_iff] at hn
    rwa [← hn.1] at hsized
  | ysInclude line filename skipped =>
    simp only [copyNode, CopyM.pure_some_iff] at hn
    rwa [← hn.1] at hsized
  | ysFilename line filename =>
    simp only [copyNode, CopyM.pure_some_iff] at hn
    rwa [← hn.1] at hsized
  | ysImport line name =>
    simp only [copyNode, CopyM.bind_some_iff, CopyM.pure_some_iff] at hn
    obtain ⟨_, _, -, rfl, -⟩ := hn
    exact hsized
  | ycFunction declaration definition => exact hstructural.elim
  | ysFunction line entry declaration definition => exact hstructural.elim
  | _ => trivial

lemma copyNode_yConst {kind : ConstKind} {v : YCPValue} {n' : Node YCode}
    (hn : copyNode E L (.yConst kind v) k = some (n', k')) : ∃ v', n' = .yConst kind v' := by
  simp only [copyNode] at hn
  cases v with
  | entry e =>
    simp only [copyConst, CopyM.bind_some_iff, CopyM.pure_some_iff] at hn
    obtain ⟨_, _, -, _, _, -, rfl, -⟩ := hn
    exact ⟨_, rfl⟩
  | _ =>
    obtain ⟨_, _, -, hn⟩ := CopyM.bind_some_iff.mp hn
    obtain ⟨rfl, -⟩ := CopyM.pure_some_iff.mp hn
    exact ⟨_, rfl⟩

lemma forall₂_entries {l l' : List (YCode × YCode)}
    (h : List.Forall₂ (fun e e' => IsCopy E L e.1 e'.1 ∧ IsCopy E L e.2 e'.2) l l') :
    List.Forall₂ (IsCopy E L) (l.flatMap fun e => [e.1, e.2]) (l'.flatMap fun e => [e.1, e.2]) := by
  induction h with
  | nil => exact .nil
  | cons he _ ih => exact .cons he.1 (.cons he.2 ih)

/-- The code that is written for a node is copied into its copy, in the same order. -/
lemma inner_of_copyNode {n n' : Node YCode} (hn : copyNode E L n k = some (n', k'))
    (hstructural : n.Structural) : List.Forall₂ (IsCopy E L) (written E n) n'.inner := by
  cases n with
  | yConst kind v =>
    obtain ⟨v', rfl⟩ := copyNode_yConst hn
    exact .nil
  | ycFunction declaration definition => exact hstructural.elim
  | ysFunction line entry declaration definition => exact hstructural.elim
  | ycLocale locale domain =>
    simp only [copyNode, CopyM.pure_some_iff] at hn
    obtain ⟨rfl, -⟩ := hn
    exact .nil
  | yePropagate source target value =>
    simp only [copyNode, CopyM.bind_some_iff, CopyM.pure_some_iff] at hn
    obtain ⟨_, _, h, rfl, -⟩ := hn
    exact .cons ⟨_, _, h⟩ .nil
  | yeUnary decl arg =>
    simp only [copyNode, CopyM.bind_some_iff, CopyM.pure_some_iff] at hn
    obtain ⟨_, _, h, rfl, -⟩ := hn
    exact .cons ⟨_, _, h⟩ .nil
  | yeBinary decl arg1 arg2 =>
    simp only [copyNode, CopyM.bind_some_iff, CopyM.pure_some_iff] at hn
    obtain ⟨_, _, h₁, _, _, h₂, rfl, -⟩ := hn
    exact .cons ⟨_, _, h₁⟩ (.cons ⟨_, _, h₂⟩ .nil)
  | yeTriple expr ifTrue ifFalse =>
    simp only [copyNode, CopyM.bind_some_iff, CopyM.pure_some_iff] at hn
    obtain ⟨_, _, h₁, _, _, h₂, _, _, h₃, rfl, -⟩ := hn
    exact .cons ⟨_, _, h₁⟩ (.cons ⟨_, _, h₂⟩ (.cons ⟨_, _, h₃⟩ .nil))
  | yeCompare left op right =>
    simp only [copyNode, CopyM.bind_some_iff, CopyM.pure_some_iff] at hn
    obtain ⟨_, _, h₁, _, _, h₂, rfl, -⟩ := hn
    exact .cons ⟨_, _, h₁⟩ (.cons ⟨_, _, h₂⟩ .nil)
  | yeLocale singular plural count domain =>
    simp only [copyNode, CopyM.bind_some_iff, CopyM.pure_some_iff] at hn
    obtain ⟨_, _, h, rfl, -⟩ := hn
    exact .cons ⟨_, _, h⟩ .nil
  | yeList elements =>
    simp only [copyNode, CopyM.bind_some_iff, CopyM.pure_some_iff] at hn
    obtain ⟨_, _, h, rfl, -⟩ := hn
    exact copyList_forall₂ h
  | yeMap entries =>
    simp only [copyNode, CopyM.bind_some_iff, CopyM.pure_some_iff] at hn
    obtain ⟨_, _, h, rfl, -⟩ := hn
    exact forall₂_entries (copyEntries_forall₂ h)
  | yeTerm name parameters =>
    simp only [copyNode, CopyM.bind_some_iff, CopyM.pure_some_iff] at hn
    obtain ⟨_, _, h, rfl, -⟩ := hn
    exact copyList_forall₂ h
  | yeIs type expr =>
    simp only [copyNode, CopyM.bind_some_iff, CopyM.pure_some_iff] at hn
    obtain ⟨_, _, h, rfl, -⟩ := hn
    exact .cons ⟨_, _, h⟩ .nil
  | yeBracket var arg default resultType =>
    simp only [copyNode, CopyM.bind_some_iff, CopyM.pure_some_iff] at hn
    obtain ⟨_, _, h₁, _, _, h₂, _, _, h₃, rfl, -⟩ := hn
    exact .cons ⟨_, _, h₁⟩ (.cons ⟨_, _, h₂⟩ (.cons ⟨_, _, h₃⟩ .nil))
  | yeBlock info table point statements =>
    rw [copyNode_yeBlock_some_iff] at hn
    obtain ⟨id, k₁, -, table', k₂, ht, point', k₃, -, statements', hs, rfl⟩ := hn
    have htable : info.hasTable = false := hstructural
    rw [htable] at ht
    obtain ⟨rfl, -⟩ := CopyM.pure_some_iff.mp ht
    simp only [written, htable]
    exact copyStatements_forall₂ hs
  | yeReturn expr =>
    simp only [copyNode, CopyM.bind_some_iff, CopyM.pure_some_iff] at hn
    obtain ⟨_, _, h, rfl, -⟩ := hn
    exact .cons ⟨_, _, h⟩ .nil
  | yeVariable entry =>
    simp only [copyNode, CopyM.bind_some_iff, CopyM.pure_some_iff] at hn
    obtain ⟨_, _, -, rfl, -⟩ := hn
    exact .nil
  | yeBuiltin type decl parameterblock parameters =>
    simp only [copyNode, CopyM.bind_some_iff, CopyM.pure_some_iff] at hn
    obtain ⟨_, _, h, _, _, -, _, _, hl, rfl, -⟩ := hn
    exact .cons ⟨_, _, h⟩ (copyList_forall₂ hl)
  | yeFunction entry parameters =>
    simp only [copyNode, CopyM.bind_some_iff, CopyM.pure_some_iff] at hn
    obtain ⟨_, _, -, _, _, h, rfl, -⟩ := hn
    exact copyList_forall₂ h
  | yeReference entry =>
    simp only [copyNode, CopyM.bind_some_iff, CopyM.pure_some_iff] at hn
    obtain ⟨_, _, -, rfl, -⟩ := hn
    exact .nil
  | yeFunctionPointer entry parameters =>
    simp only [copyNode, CopyM.bind_some_iff, CopyM.pure_some_iff] at hn
    obtain ⟨_, _, -, _, _, h, rfl, -⟩ := hn
    exact copyList_forall₂ h
  | ysTypedef line name type =>
    simp only [copyNode, CopyM.pure_some_iff] at hn
    obtain ⟨rfl, -⟩ := hn
    exact .nil
  | ysVariable line entry code =>
    simp only [copyNode, CopyM.bind_some_iff, CopyM.pure_some_iff] at hn
    obtain ⟨_, _, -, _, _, h, _, _, -, rfl, -⟩ := hn
    exact .cons ⟨_, _, h⟩ .nil
  | ysAssign line entry code =>
    simp only [copyNode, CopyM.bind_some_iff, CopyM.pure_some_iff] at hn
    obtain ⟨_, _, -, _, _, h, rfl, -⟩ := hn
    exact .cons ⟨_, _, h⟩ .nil
  | ysBracket line entry arg code =>
    simp only [copyNode, CopyM.bind_some_iff, CopyM.pure_some_iff] at hn
    obtain ⟨_, _, -, _, _, h₁, _, _, h₂, rfl, -⟩ := hn
    exact .cons ⟨_, _, h₁⟩ (.cons ⟨_, _, h₂⟩ .nil)
  | ysIf line condition ifTrue ifFalse =>
    simp only [copyNode, CopyM.bind_some_iff, CopyM.pure_some_iff] at hn
    obtain ⟨_, _, h₁, _, _, h₂, _, _, h₃, rfl, -⟩ := hn
    exact .cons ⟨_, _, h₁⟩ (.cons ⟨_, _, h₂⟩ (.cons ⟨_, _, h₃⟩ .nil))
  | ysWhile line condition loop =>
    simp only [copyNode, CopyM.bind_some_iff, CopyM.pure_some_iff] at hn
    obtain ⟨_, _, h₁, _, _, h₂, rfl, -⟩ := hn
    exact .cons ⟨_, _, h₁⟩ (.cons ⟨_, _, h₂⟩ .nil)
  | ysDo line condition loop =>
    simp only [copyNode, CopyM.bind_some_iff, CopyM.pure_some_iff] at hn
    obtain ⟨_, _, h₂, _, _, h₁, rfl, -⟩ := hn
    exact .cons ⟨_, _, h₁⟩ (.cons ⟨_, _, h₂⟩ .nil)
  | ysRepeat line condition loop =>
    simp only [copyNode, CopyM.bind_some_iff, CopyM.pure_some_iff] at hn
    obtain ⟨_, _, h₂, _, _, h₁, rfl, -⟩ := hn
    exact .cons ⟨_, _, h₁⟩ (.cons ⟨_, _, h₂⟩ .nil)
  | ysExpression line expr =>
    simp only [copyNode, CopyM.bind_some_iff, CopyM.pure_some_iff] at hn
    obtain ⟨_, _, h, rfl, -⟩ := hn
    exact .cons ⟨_, _, h⟩ .nil
  | ysReturn line value =>
    simp only [copyNode, CopyM.bind_some_iff, CopyM.pure_some_iff] at hn
    obtain ⟨_, _, h, rfl, -⟩ := hn
    exact .cons ⟨_, _, h⟩ .nil
  | ysBreak line =>
    simp only [copyNode, CopyM.pure_some_iff] at hn
    obtain ⟨rfl, -⟩ := hn
    exact .nil
  | ysContinue line =>
    simp only [copyNode, CopyM.pure_some_iff] at hn
    obtain ⟨rfl, -⟩ := hn
    exact .nil
  | ysTextdomain line domain =>
    simp only [copyNode, CopyM.pure_some_iff] at hn
    obtain ⟨rfl, -⟩ := hn
    exact .nil
  | ysInclude line filename skipped =>
    simp only [copyNode, CopyM.pure_some_iff] at hn
    obtain ⟨rfl, -⟩ := hn
    exact .nil
  | ysFilename line filename =>
    simp only [copyNode, CopyM.pure_some_iff] at hn
    obtain ⟨rfl, -⟩ := hn
    exact .nil
  | ysImport line name =>
    simp only [copyNode, CopyM.bind_some_iff, CopyM.pure_some_iff] at hn
    obtain ⟨_, _, -, rfl, -⟩ := hn
    exact .nil
  | ysBlock line block =>
    simp only [copyNode, CopyM.bind_some_iff, CopyM.pure_some_iff] at hn
    obtain ⟨_, _, h, rfl, -⟩ := hn
    exact .cons ⟨_, _, h⟩ .nil
  | ysSwitch line condition cases defaultcase block =>
    simp only [copyNode, CopyM.bind_some_iff, CopyM.pure_some_iff] at hn
    obtain ⟨_, _, h₁, _, _, h₂, rfl, -⟩ := hn
    exact .cons ⟨_, _, h₁⟩ (.cons ⟨_, _, h₂⟩ .nil)

lemma sized_of_sound {c c' : YCode} (hcopy : copy E L c k = some (c', k'))
    (h : c.Every (written E) fun n => n.Structural ∧ n.KeepsConstants ∧ n.Constants E.isprint)
    (hsound : Sound c') : c.Every (written E) Node.Sized := by
  induction c using YCode.induct generalizing c' k k' with
  | null => exact .null
  | node n ih =>
    simp only [copy, CopyM.bind_some_iff, CopyM.pure_some_iff] at hcopy
    obtain ⟨n', _, hn, rfl, rfl⟩ := hcopy
    rw [every_node] at h ⊢
    rw [sound_node] at hsound
    obtain ⟨⟨hstructural, hkeep, hconstants⟩, hbelow⟩ := h
    refine ⟨sized_of_copyNode hn hstructural hkeep hconstants hsound.1, fun c hc => ?_⟩
    obtain ⟨c', hc', k₁, k₂, hcopy⟩ : ∃ c' ∈ n'.inner, IsCopy E L c c' := by
      obtain ⟨i, hi, rfl⟩ := List.getElem_of_mem hc
      have hcopies := inner_of_copyNode hn hstructural
      exact ⟨_, List.getElem_mem (hcopies.length_eq ▸ hi), hcopies.get hi _⟩
    exact ih c (written_subset_children hc) hcopy (hbelow c hc) (hsound.2 c' hc')

lemma keepsConstants_iff {n : Node YCode} (h : n.Constants E.isprint) :
    n.KeepsConstants ↔ n.NulFreeConstants := by
  cases n with
  | yConst kind v =>
    cases v with
    | entry e => rfl
    | _ => exact YCPValue.carried_eq_self_iff (show YCPValue.Constant E.isprint _ from h)
  | ysSwitch line condition cases defaultcase block =>
    exact forall₂_congr fun c hc => YCPValue.carried_eq_self_iff (h.1 c hc)
  | _ => rfl

/-! ### The round trip -/

variable {B : Base} {F : List Frame} {c c' : YCode} {w : Bytes} {s : NamespaceStack}

/-- The expression `[5, nil]`. -/
def fiveNil : YCode :=
  .node (.yeList [.node (.yConst .ycInteger (.integer 5)), .node (.yConst .ycVoid .void)])

/-- The constant `."a\\x00b"`. -/
def nulPath : YCode := .node (.yConst .ycPath (.path [⟨[97, 0, 98], true, by simp⟩]))

end Bytecode

end YastCore
