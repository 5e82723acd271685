import YastCore.Code.Likeness
import YastCore.Code.Shape

/-!
# The copy is like the tree

What the reader makes of a structural tree is like the tree in everything that evaluation looks at: the
symbols are the linked ones, and types, builtins and constants are the same. Links that have been made
stay, so all of the tree is copied by the links that there are in the end.
-/

namespace YastCore

/-- A node of the code itself: a `YFunction` is only written with the table of a module. -/
def Node.Tableless : Node YCode → Prop
  | ycFunction _ _ => False
  | yeBlock info _ _ _ => info.hasTable = false
  | _ => True

namespace Bytecode

open YCode

variable {E : WriterEnv} {L : ReaderEnv} {α β : Type} {k k' k'' K : Links}

/-! ### Links stay -/

/-- The copies of blocks are ones that have been made. -/
def Made (k : Links) : Prop := ∀ b b', k.block b = some b' → b' < k.world.next

/-- The copies of blocks stay, and they lose no symbols. -/
structure Grows (k k' : Links) : Prop where
  made : Made k'
  block : ∀ b b', k.block b = some b' →
    k'.block b = some b' ∧ (k.world.symbols b').length ≤ (k'.world.symbols b').length

lemma Grows.refl (h : Made k) : Grows k k := ⟨h, fun _ _ hb => ⟨hb, le_rfl⟩⟩

lemma Grows.trans (h : Grows k k') (h' : Grows k' k'') : Grows k k'' := by
  refine ⟨h'.made, fun b b' hb => ?_⟩
  obtain ⟨hb, hle⟩ := h.block b b' hb
  obtain ⟨hb, hle'⟩ := h'.block b b' hb
  exact ⟨hb, hle.trans hle'⟩

lemma Grows.linkLocal (h : Grows k k') {e e' : EntryRef} (he : linkLocal k e = some e') :
    linkLocal k' e = some e' := by
  obtain ⟨ns, p⟩ := e
  cases ns with
  | module m => simp [Bytecode.linkLocal] at he
  | block b =>
    simp only [Bytecode.linkLocal] at he ⊢
    cases hb : k.block b with
    | none => simp [hb] at he
    | some b' =>
      obtain ⟨hb', hle⟩ := h.block b b' hb
      simp only [hb, Option.ite_none_right_eq_some] at he
      simp only [hb']
      rw [if_pos (he.1.trans_le hle)]
      exact he.2

lemma Grows.linkEntry (h : Grows k k') {e e' : EntryRef} (he : linkEntry E L k e = some e') :
    linkEntry E L k' e = some e' := by
  obtain ⟨ns, p⟩ := e
  cases ns with
  | module m => exact he
  | block b =>
    rw [Bytecode.linkEntry] at he ⊢
    exact h.linkLocal he

variable (K) in
/-- A copying step keeps the links, and what it yields is as it should be by the links `K` in the end. -/
def Keeps (x : CopyM α) (Q : α → Prop) : Prop :=
  ∀ k a k', Made k → x k = some (a, k') → Grows k k' ∧ (Grows k' K → Q a)

section Rules

variable {x : CopyM α} {f : α → CopyM β} {Q : α → Prop} {Q' : β → Prop}

lemma Keeps.bind (h : Keeps K x Q) (h' : ∀ a, Keeps K (f a) fun b => Q a → Q' b) : Keeps K (x >>= f) Q' := by
  intro k b k' hk hrun
  obtain ⟨a, k₁, ha, hb⟩ := CopyM.bind_some_iff.mp hrun
  obtain ⟨hgrows, hQ⟩ := h k a k₁ hk ha
  obtain ⟨hgrows', hQ'⟩ := h' a k₁ b k' hgrows.made hb
  exact ⟨hgrows.trans hgrows', fun hK => hQ' hK (hQ (hgrows'.trans hK))⟩

lemma keeps_pure {a : α} (h : Q a) : Keeps K (pure a : CopyM α) Q := by
  intro k b k' hk hrun
  obtain ⟨rfl, rfl⟩ := CopyM.pure_some_iff.mp hrun
  exact ⟨.refl hk, fun _ => h⟩

lemma Keeps.mono {Q' : α → Prop} (h : Keeps K x Q) (hQ : ∀ a, Q a → Q' a) : Keeps K x Q' := by
  intro k a k' hk hrun
  obtain ⟨hgrows, ha⟩ := h k a k' hk hrun
  exact ⟨hgrows, fun hK => hQ a (ha hK)⟩

lemma keeps_get : Keeps K (get : CopyM Links) fun _ => True := by
  intro k a k' hk hrun
  obtain ⟨rfl, rfl⟩ := CopyM.get_some_iff.mp hrun
  exact ⟨.refl hk, fun _ => trivial⟩

lemma keeps_failure : Keeps K (failure : CopyM α) Q := by
  intro k a k' _ hrun
  exact (CopyM.failure_some_iff.mp hrun).elim

lemma keeps_guardCopy (b : Bool) : Keeps K (guardCopy b) fun _ => b = true := by
  intro k a k' hk hrun
  obtain ⟨hb, rfl⟩ := guardCopy_some_iff.mp hrun
  exact ⟨.refl hk, fun _ => hb⟩

lemma keeps_copyEntry (e : EntryRef) : Keeps K (copyEntry E L e) fun e' => linkEntry E L K e = some e' := by
  intro k e' k' hk hrun
  obtain ⟨he, rfl⟩ := (copyEntry_some_iff E L).mp hrun
  exact ⟨.refl hk, fun hK => hK.linkEntry he⟩

lemma keeps_codeSet (e : EntryRef) (c : YCode) :
    Keeps K (modifyWorld fun w => codeSet L w e c) fun _ => True := by
  intro k a k' hk hrun
  obtain rfl := modifyWorld_some_iff.mp hrun
  have hworld : (codeSet L k.world e c).next = k.world.next ∧
      (codeSet L k.world e c).symbols = k.world.symbols := by
    unfold codeSet
    split <;> exact ⟨rfl, rfl⟩
  refine ⟨⟨fun b b' hb => ?_, fun b b' hb => ⟨hb, ?_⟩⟩, fun _ => trivial⟩
  · rw [hworld.1]
    exact hk b b' hb
  · rw [hworld.2]

lemma keeps_copyLocal (e : EntryRef) : Keeps K (copyLocal e) fun _ => True := by
  intro k e' k' hk hrun
  obtain ⟨-, rfl⟩ := copyLocal_some_iff.mp hrun
  exact ⟨.refl hk, fun _ => trivial⟩

lemma keeps_copyPrototype (e : EntryRef) {global need : Bool} {x : CopyM YCode}
    (h : global = false → need = true → Keeps K x fun _ => True) :
    Keeps K (copyPrototype L e global need x) fun _ => True := by
  unfold copyPrototype
  cases global with
  | true => exact keeps_pure trivial
  | false =>
    have hdeclaration : Keeps K (copyIf need x .null) fun _ => True := by
      cases need with
      | true => exact h rfl rfl
      | false => exact keeps_pure trivial
    exact hdeclaration.bind fun _ => (keeps_codeSet _ _).mono fun _ _ _ => trivial

lemma keeps_copyDefinition (e : EntryRef) {declaration definition : YCode} {x : CopyM YCode}
    (h : Keeps K x fun _ => True) : Keeps K (copyDefinition L e declaration definition x) fun _ => True := by
  unfold copyDefinition
  refine keeps_get.bind fun k => ?_
  cases asFunction (k.world.code e) with
  | none => exact keeps_failure
  | some f =>
    refine (keeps_guardCopy _).bind fun _ => ?_
    split
    · exact keeps_pure fun _ _ => trivial
    · refine (keeps_guardCopy _).bind fun _ => h.bind fun c => ?_
      cases asDefinition c with
      | none => exact keeps_failure
      | some d => exact (keeps_codeSet _ _).bind fun _ => keeps_pure fun _ _ _ _ _ => trivial

/-- The symbols that go into a new block. -/
lemma symbols_foldl (id : Nat) (l : List Symbol) (w : World) :
    (l.foldl (fun w s => w.addSymbol id s) w).next = w.next ∧
      (l.foldl (fun w s => w.addSymbol id s) w).symbols = Function.update w.symbols id (w.symbols id ++ l) := by
  induction l generalizing w with
  | nil => simp
  | cons s l ih =>
    rw [List.foldl_cons, (ih _).1, (ih _).2]
    simp [World.addSymbol]

/-- A new block has the symbols of the one it is copied from. -/
lemma keeps_copyHeader (info : BlockInfo) : Keeps K (copyHeader E info) fun id =>
    ∀ i < info.symbolCount, linkEntry E L K ⟨info.ns, i⟩ = some ⟨.block id, i⟩ := by
  intro k id k' hk hrun
  simp only [copyHeader, CopyM.bind_some_iff, CopyM.pure_some_iff, CopyM.get_some_iff, CopyM.set_some_iff,
    guardCopy_some_iff, modifyWorld_some_iff] at hrun
  obtain ⟨_, _, ⟨rfl, rfl⟩, _, _, ⟨hnew, rfl⟩, _, _, rfl, _, _, rfl, rfl, rfl⟩ := hrun
  obtain ⟨hnext, hsymbols⟩ := symbols_foldl k.world.next (symbolsOf E info) k.world.newBlock
  have hgrows : Grows k ⟨(symbolsOf E info).foldl (fun w s => w.addSymbol k.world.next s) k.world.newBlock,
      Function.update k.block info.id (some k.world.next)⟩ := by
    constructor
    · intro b b' hb
      rw [hnext]
      dsimp only at hb
      rw [Function.update_apply] at hb
      split at hb
      · cases hb
        exact Nat.lt_succ_self _
      · exact (hk b b' hb).trans (Nat.lt_succ_self _)
    · intro b b' hb
      have hne : b ≠ info.id := by
        rintro rfl
        rw [hb] at hnew
        cases hnew
      have hne' : b' ≠ k.world.next := (hk b b' hb).ne
      rw [hsymbols]
      refine ⟨?_, ?_⟩
      · dsimp only
        rw [Function.update_of_ne hne]
        exact hb
      · simp [World.newBlock, Function.update_of_ne hne']
  refine ⟨hgrows, fun hK i hi => ?_⟩
  refine hK.linkEntry ?_
  simp only [linkEntry, BlockInfo.ns, linkLocal, Function.update_self, hsymbols]
  rw [if_pos]
  simpa [World.newBlock, symbolsOf] using hi

end Rules

/-! ### Trees -/

section Trees

variable (E L K)

/-- What the links make of the symbols, and of the constants that name them; the rest is the same. -/
def linked : Likeness where
  entry e e' := linkEntry E L K e = some e'
  value v v' := (∃ e e', v = .entry e ∧ v' = .entry e' ∧ linkEntry E L K e = some e') ∨ v' = v ∧ v.Constant E.isprint
  type := Eq
  decl := Eq
  block info info' := info.kind = info'.kind ∧ info.symbolCount = info'.symbolCount ∧
    ∀ i < info.symbolCount, linkEntry E L K ⟨info.ns, i⟩ = some ⟨info'.ns, i⟩

/-- Trees without the table of a module, with constants that are data and are carried as they are. -/
abbrev Carried (c : YCode) : Prop :=
  c.Every (written E) fun n => n.Tableless ∧ n.KeepsConstants ∧ n.Constants E.isprint

/-- The tree is copied into one that is like it. -/
abbrev CopiedLike (c : YCode) : Prop := Keeps K (copy E L c) (YCode.Like (linked E L K) c)

variable {E L K}

lemma keeps_copyList {l : List YCode} (h : ∀ c ∈ l, CopiedLike E L K c) :
    Keeps K (copyList E L l) (List.Forall₂ (YCode.Like (linked E L K)) l) := by
  induction l with
  | nil => exact keeps_pure .nil
  | cons c l ih =>
    rw [List.forall_mem_cons] at h
    refine h.1.bind fun c' => (ih h.2).bind fun l' => keeps_pure fun hl hc => ?_
    exact .cons hc hl

lemma keeps_copyStatements {l : List YCode} (h : ∀ c ∈ l, CopiedLike E L K c) :
    Keeps K (copyStatements E L l) (List.Forall₂ (YCode.Like (linked E L K)) l) := by
  induction l with
  | nil => exact keeps_pure .nil
  | cons c l ih =>
    rw [List.forall_mem_cons] at h
    refine h.1.bind fun c' => (keeps_guardCopy _).bind fun _ => (ih h.2).bind fun l' => keeps_pure ?_
    exact fun hl _ hc => .cons hc hl

lemma keeps_copyEntries {l : List (YCode × YCode)} (h : ∀ e ∈ l, CopiedLike E L K e.1 ∧ CopiedLike E L K e.2) :
    Keeps K (copyEntries E L l) fun l' =>
      List.Forall₂ (YCode.Like (linked E L K)) (l.map Prod.fst) (l'.map Prod.fst) ∧
        List.Forall₂ (YCode.Like (linked E L K)) (l.map Prod.snd) (l'.map Prod.snd) := by
  induction l with
  | nil => exact keeps_pure ⟨.nil, .nil⟩
  | cons e l ih =>
    rw [List.forall_mem_cons] at h
    refine h.1.1.bind fun key => h.1.2.bind fun value => (ih h.2).bind fun l' => keeps_pure ?_
    exact fun hl hvalue hkey => ⟨.cons hkey hl.1, .cons hvalue hl.2⟩

lemma keeps_copyConst {kind : ConstKind} {v : YCPValue} (hkeep : (Node.yConst kind v).KeepsConstants)
    (hconstant : (Node.yConst kind v).Constants E.isprint) :
    Keeps K (copyConst E L kind v) (Node.Like (YCode.Like (linked E L K)) (linked E L K) (.yConst kind v)) := by
  cases v with
  | entry e =>
    refine (keeps_guardCopy _).bind fun _ => (keeps_copyEntry e).bind fun e' => keeps_pure fun he hkind => ?_
    obtain rfl := of_decide_eq_true hkind
    exact .yConst (.inl ⟨e, e', rfl, rfl, he⟩)
  | _ =>
    refine (keeps_guardCopy _).bind fun _ => keeps_pure fun _ => ?_
    exact .yConst (.inr ⟨hkeep, hconstant⟩)

lemma keeps_copyPoint (p : Point) : Keeps K (copyPoint E L p) fun _ => True := by
  have hchain (l : List (EntryRef × UInt32)) : Keeps K (copyChain E L l) fun _ => True := by
    induction l with
    | nil => exact keeps_pure trivial
    | cons q l ih =>
      exact (keeps_copyEntry q.1).bind fun _ => ih.bind fun _ => keeps_pure fun _ _ => trivial
  exact (keeps_copyEntry p.entry).bind fun _ => (hchain p.outer).bind fun _ => keeps_pure fun _ _ => trivial

lemma keeps_copyNode {n : Node YCode} (htableless : n.Tableless) (hkeep : n.KeepsConstants)
    (hconstants : n.Constants E.isprint) (ih : ∀ c ∈ written E n, CopiedLike E L K c) :
    Keeps K (copyNode E L n) (Node.Like (YCode.Like (linked E L K)) (linked E L K) n) := by
  have hdecl {d : Option DeclId} : Option.Rel (linked E L K).decl d d := by
    cases d with
    | none => exact .none
    | some d => exact .some rfl
  cases n with
  | yConst kind value =>
    rw [copyNode]
    exact keeps_copyConst hkeep hconstants
  | ycFunction declaration definition => exact htableless.elim
  | ysFunction line entry declaration definition =>
    rw [copyNode]
    have hdefinition : Keeps K (copy E L definition) fun _ => True := (ih definition (by simp)).mono fun _ _ => trivial
    refine (keeps_copyLocal entry).bind fun entry' => Keeps.bind (Q := fun _ => True) ?_ fun _ => ?_
    · refine keeps_copyPrototype entry' fun hglobal hneed => ?_
      exact (ih declaration (by simp [hglobal, hneed])).mono fun _ _ => trivial
    · exact (keeps_copyDefinition entry' hdefinition).bind fun _ => keeps_pure fun _ _ _ => .ysFunction
  | ycLocale locale domain =>
    rw [copyNode]
    exact keeps_pure (.ycLocale locale domain)
  | yePropagate source target value =>
    rw [copyNode]
    exact (ih value (by simp)).bind fun _ => keeps_pure fun h => .yePropagate rfl h
  | yeUnary decl arg =>
    rw [copyNode]
    exact (ih arg (by simp)).bind fun _ => keeps_pure fun h => .yeUnary hdecl h
  | yeBinary decl arg1 arg2 =>
    rw [copyNode]
    refine (ih arg1 (by simp)).bind fun _ => (ih arg2 (by simp)).bind fun _ => keeps_pure fun h₂ h₁ => ?_
    exact .yeBinary hdecl h₁ h₂
  | yeTriple expr ifTrue ifFalse =>
    rw [copyNode]
    refine (ih expr (by simp)).bind fun _ => (ih ifTrue (by simp)).bind fun _ => ?_
    exact (ih ifFalse (by simp)).bind fun _ => keeps_pure fun h₃ h₂ h₁ => .yeTriple h₁ h₂ h₃
  | yeCompare left op right =>
    rw [copyNode]
    refine (ih left (by simp)).bind fun _ => (ih right (by simp)).bind fun _ => keeps_pure fun h₂ h₁ => ?_
    exact .yeCompare op h₁ h₂
  | yeLocale singular plural count domain =>
    rw [copyNode]
    exact (ih count (by simp)).bind fun _ => keeps_pure fun h => .yeLocale singular plural domain h
  | yeList elements =>
    rw [copyNode]
    exact (keeps_copyList ih).bind fun _ => keeps_pure fun h => .yeList h
  | yeMap entries =>
    rw [copyNode]
    refine (keeps_copyEntries fun e he => ?_).bind fun _ => keeps_pure fun h => .yeMap h.1 h.2
    have hmem (c : YCode) (hc : c ∈ [e.1, e.2]) : c ∈ written E (.yeMap entries) :=
      List.mem_flatMap.mpr ⟨e, he, hc⟩
    exact ⟨ih e.1 (hmem e.1 (by simp)), ih e.2 (hmem e.2 (by simp))⟩
  | yeTerm name parameters =>
    rw [copyNode]
    exact (keeps_copyList ih).bind fun _ => keeps_pure fun h => .yeTerm name h
  | yeIs type expr =>
    rw [copyNode]
    exact (ih expr (by simp)).bind fun _ => keeps_pure fun h => .yeIs rfl h
  | yeBracket var arg default resultType =>
    rw [copyNode]
    refine (ih var (by simp)).bind fun _ => (ih arg (by simp)).bind fun _ => ?_
    exact (ih default (by simp)).bind fun _ => keeps_pure fun h₃ h₂ h₁ => .yeBracket h₁ h₂ h₃
  | yeBlock info table point statements =>
    have htable : info.hasTable = false := htableless
    rw [copyNode, htable]
    refine (keeps_copyHeader (L := L) info).bind fun id => (keeps_pure (Q := fun _ => True) trivial).bind fun _ => ?_
    refine (keeps_copyPoint point).bind fun _ => ?_
    have hstatements := keeps_copyStatements (K := K) fun c hc => ih c (by simpa [htable] using hc)
    refine hstatements.bind fun _ => keeps_pure fun hs _ _ hinfo => ?_
    exact .yeBlock ⟨rfl, rfl, hinfo⟩ hs
  | yeReturn expr =>
    rw [copyNode]
    exact (ih expr (by simp)).bind fun _ => keeps_pure fun h => .yeReturn h
  | yeVariable entry =>
    rw [copyNode]
    exact (keeps_copyEntry entry).bind fun _ => keeps_pure fun h => .yeVariable h
  | yeBuiltin type decl parameterblock parameters =>
    rw [copyNode]
    refine (ih parameterblock (by simp)).bind fun _ => (keeps_guardCopy _).bind fun _ => ?_
    have hparameters := keeps_copyList (K := K) fun c hc => ih c (List.mem_cons_of_mem _ hc)
    exact hparameters.bind fun _ => keeps_pure fun h _ h₁ => .yeBuiltin hdecl h₁ h
  | yeFunction entry parameters =>
    rw [copyNode]
    refine (keeps_copyEntry entry).bind fun _ => (keeps_copyList ih).bind fun _ => keeps_pure fun h he => ?_
    exact .yeFunction he h
  | yeReference entry =>
    rw [copyNode]
    exact (keeps_copyEntry entry).bind fun _ => keeps_pure fun h => .yeReference h
  | yeFunctionPointer entry parameters =>
    rw [copyNode]
    refine (keeps_copyEntry entry).bind fun _ => (keeps_copyList ih).bind fun _ => keeps_pure fun h he => ?_
    exact .yeFunctionPointer he h
  | ysTypedef line name type =>
    rw [copyNode]
    exact keeps_pure .ysTypedef
  | ysVariable line entry code =>
    rw [copyNode]
    refine (keeps_copyEntry entry).bind fun _ => (ih code (by simp)).bind fun _ => ?_
    exact (keeps_codeSet _ _).bind fun _ => keeps_pure fun _ h he => .ysVariable he h
  | ysAssign line entry code =>
    rw [copyNode]
    refine (keeps_copyEntry entry).bind fun _ => (ih code (by simp)).bind fun _ => keeps_pure fun h he => ?_
    exact .ysAssign he h
  | ysBracket line entry arg code =>
    rw [copyNode]
    refine (keeps_copyEntry entry).bind fun _ => (ih arg (by simp)).bind fun _ => ?_
    exact (ih code (by simp)).bind fun _ => keeps_pure fun h₂ h₁ he => .ysBracket he h₁ h₂
  | ysIf line condition ifTrue ifFalse =>
    rw [copyNode]
    refine (ih condition (by simp)).bind fun _ => (ih ifTrue (by simp)).bind fun _ => ?_
    exact (ih ifFalse (by simp)).bind fun _ => keeps_pure fun h₃ h₂ h₁ => .ysIf h₁ h₂ h₃
  | ysWhile line condition loop =>
    rw [copyNode]
    refine (ih condition (by simp)).bind fun _ => (ih loop (by simp)).bind fun _ => keeps_pure fun h₂ h₁ => ?_
    exact .ysWhile h₁ h₂
  | ysDo line condition loop =>
    rw [copyNode]
    refine (ih loop (by simp)).bind fun _ => (ih condition (by simp)).bind fun _ => keeps_pure fun h₁ h₂ => ?_
    exact .ysDo h₁ h₂
  | ysRepeat line condition loop =>
    rw [copyNode]
    refine (ih loop (by simp)).bind fun _ => (ih condition (by simp)).bind fun _ => keeps_pure fun h₁ h₂ => ?_
    exact .ysRepeat h₁ h₂
  | ysExpression line expr =>
    rw [copyNode]
    exact (ih expr (by simp)).bind fun _ => keeps_pure fun h => .ysExpression h
  | ysReturn line value =>
    rw [copyNode]
    exact (ih value (by simp)).bind fun _ => keeps_pure fun h => .ysReturn h
  | ysBreak line =>
    rw [copyNode]
    exact keeps_pure .ysBreak
  | ysContinue line =>
    rw [copyNode]
    exact keeps_pure .ysContinue
  | ysTextdomain line domain =>
    rw [copyNode]
    exact keeps_pure .ysTextdomain
  | ysInclude line filename skipped =>
    rw [copyNode]
    exact keeps_pure .ysInclude
  | ysFilename line filename =>
    rw [copyNode]
    exact keeps_pure .ysFilename
  | ysImport line name =>
    rw [copyNode]
    exact (keeps_guardCopy _).bind fun _ => keeps_pure fun _ => .ysImport name
  | ysBlock line block =>
    rw [copyNode]
    exact (ih block (by simp)).bind fun _ => keeps_pure fun h => .ysBlock h
  | ysSwitch line condition cases defaultcase block =>
    rw [copyNode]
    refine (ih condition (by simp)).bind fun _ => (ih block (by simp)).bind fun _ => keeps_pure fun h₂ h₁ => ?_
    rw [carriedCases_eq_self hkeep hconstants.2]
    refine .ysSwitch defaultcase h₁ ?_ rfl h₂
    rw [List.forall₂_same]
    intro v hv
    obtain ⟨c, hc, rfl⟩ := List.mem_map.mp hv
    exact .inr ⟨rfl, hconstants.1 c hc⟩

/-- A tree is copied into one that is like it. -/
theorem copiedLike_of_carried {c : YCode} (h : Carried E c) : CopiedLike E L K c := by
  induction c using YCode.induct with
  | null =>
    rw [CopiedLike, copy]
    exact keeps_pure .null
  | node n ih =>
    rw [Carried, every_node] at h
    obtain ⟨⟨htableless, hkeep, hconstants⟩, hbelow⟩ := h
    rw [CopiedLike, copy]
    refine (keeps_copyNode htableless hkeep hconstants fun c hc => ?_).bind fun n' => keeps_pure .node
    exact ih c (written_subset_children hc) (hbelow c hc)

end Trees

end Bytecode

end YastCore
