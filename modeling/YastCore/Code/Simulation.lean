import YastCore.Code.Frames

/-!
# Writer and reader in step

The parts of a tree that are not code, and how steps of the reader that follow the writer compose.
-/

namespace YastCore

open Codec Bytecode

/-! ### What fits -/

/-- One byte more than the text can be allocated. -/
def CText.Fits (t : CText) : Prop := t.text.length + 1 < 2 ^ 32

def Point.Fits (p : Point) : Prop := EntryFits p.entry ∧ ∀ q ∈ p.outer, EntryFits q.1

namespace Node

/-- The counts of a node fit the types that writer and reader keep them in. -/
def Sized : Node YCode → Prop
  | yConst _ (.entry e) => EntryFits e
  | ycLocale locale domain => locale.Fits ∧ domain.Fits
  | yeLocale singular plural _ domain => singular.Fits ∧ plural.Fits ∧ domain.Fits
  | yeList elements => elements.length < 2 ^ 32
  | yeMap entries => entries.length < 2 ^ 32
  | yeTerm name parameters => name.Fits ∧ parameters.length < 2 ^ 32
  | yeBlock info table point statements => info.name.Fits ∧ info.symbolCount < 2 ^ 32 ∧
      (info.hasTable = true → table.length < 2 ^ 31 ∧
        ∀ i ∈ table, EntryFits i.entry ∧ i.point.Fits) ∧
      point.Fits ∧ statements.length < 2 ^ 32
  | yeVariable entry => EntryFits entry
  | yeBuiltin _ _ _ parameters => parameters.length < 2 ^ 32
  | yeFunction entry parameters => EntryFits entry ∧ parameters.length < 2 ^ 32
  | yeReference entry => EntryFits entry
  | yeFunctionPointer entry parameters => EntryFits entry ∧ parameters.length < 2 ^ 32
  | ysTypedef _ name _ => name.Fits
  | ysVariable _ entry _ => EntryFits entry
  | ysFunction _ entry _ _ => EntryFits entry
  | ysAssign _ entry _ => EntryFits entry
  | ysBracket _ entry _ _ => EntryFits entry
  | ysTextdomain _ domain => domain.Fits
  | ysInclude _ filename _ => filename.Fits
  | ysFilename _ filename => filename.Fits
  | ysImport _ name => name.Fits
  | ysSwitch _ _ cases _ _ => cases.length < 2 ^ 31
  | _ => True

/-- The constants of a node are data; those of the cases of a switch make up a map. -/
def Constants (isprint : UInt8 → Bool) : Node YCode → Prop
  | yConst _ (.entry _) => True
  | yConst _ v => v.Constant isprint
  | ysSwitch _ _ cases _ _ => (∀ c ∈ cases, c.1.Constant isprint) ∧
      cases.Pairwise fun c c' => YCPValue.keyLess c.1 c'.1 = true
  | _ => True

/-- The counts inside the constants of a node fit. -/
@[simp] def ConstantsFit (isprint : UInt8 → Bool) : Node YCode → Prop
  | yConst _ (.entry _) => True
  | yConst _ v => v.Fits isprint
  | ysSwitch _ _ cases _ _ => ∀ c ∈ cases, c.1.Fits isprint
  | _ => True

lemma constantsFit_yConst {isprint : UInt8 → Bool} (kind : ConstKind) {v : YCPValue}
    (hv : v.Constant isprint) : (yConst kind v).ConstantsFit isprint ↔ v.Fits isprint := by
  cases v with
  | entry e => simp [YCPValue.Constant] at hv
  | _ => simp only [ConstantsFit]

end Node

namespace Bytecode

/-- The code that is written for a node. Of a function without parameters the declaration is not, and
of a global function the prototype is written with the table of its module. -/
@[simp] def written (E : WriterEnv) : Node YCode → List YCode
  | .ycFunction declaration _ => if needDeclaration declaration then [declaration] else []
  | .yeBlock info table _ statements =>
    (if info.hasTable then
      (table.filter fun i => (E.symbol i.entry).category = .c_function && (E.symbol i.entry).global).map
        TableItem.prototype
      else []) ++ statements
  | .ysFunction _ entry declaration definition =>
    (if !(E.symbol entry).global && needDeclaration declaration then [declaration] else []) ++
      [definition]
  | n => n.children

variable {E : WriterEnv} {L : ReaderEnv} {B : Base} {F F' : List Frame} {k k' : Links}

lemma written_subset_children {n : Node YCode} {c : YCode} (h : c ∈ written E n) :
    c ∈ n.children := by
  cases n with
  | ycFunction declaration definition =>
    simp only [written] at h
    split at h
    · simp_all [Node.children]
    · simp at h
  | yeBlock info table point statements =>
    simp only [written, Node.children, List.mem_append] at h ⊢
    rcases h with h | h
    · split at h
      · obtain ⟨i, hi, rfl⟩ := List.mem_map.mp h
        exact .inl (List.mem_map_of_mem (List.mem_filter.mp hi).1)
      · simp at h
    · exact .inr h
  | ysFunction line entry declaration definition =>
    simp only [written, Node.children, List.mem_append] at h ⊢
    rcases h with h | h
    · split at h <;> simp_all
    · simp_all
  | _ => exact h

/-- What the readers of types and declarations have to do for the writers of them. -/
structure RoundTrips (E : WriterEnv) (L : ReaderEnv) : Prop where
  type : ∀ ty st, Reads L.readType st (E.writeType ty) ty st
  declaration : ∀ d st, Reads L.readDeclaration st (E.writeDeclaration d) (some d) st

/-! ### Parts without code -/

lemma ofBuffer_text (t : CText) : CText.ofBuffer t.text = t := by
  obtain ⟨text, nul_free⟩ := t
  simp only [CText.ofBuffer, cut_eq_self.mpr nul_free]

lemma reads_writeCharp {t : CText} (h : t.Fits) (st : ReaderState) :
    Reads readCharp st (writeCharp t) t st := by
  rw [CText.Fits] at h
  rw [writeCharp, writeString_eq (by omega)]
  refine (reads_writeInt32 (by omega) st).bind ?_
  rw [if_neg (by omega)]
  refine (reads_takeN ReadFault.endOfStream rfl st).bind_nil ?_
  rw [ofBuffer_text]
  exact Reads.pure t st

lemma reads_line (line : UInt32) (st : ReaderState) :
    Reads readLine st (writeInt32 line.toNat) line st := by
  refine (reads_writeInt32 line.toNat_lt st).bind_nil ?_
  rw [UInt32.ofNat_toNat]
  exact Reads.pure line st

lemma reads_int (i : Int32) (st : ReaderState) : Reads readInt st (writeInt i) i st := by
  refine (reads_writeInt32 i.toUInt32.toNat_lt st).bind_nil ?_
  rw [UInt32.ofNat_toNat, Int32.toInt32_toUInt32]
  exact Reads.pure i st

lemma reads_entryPtr {e e' : EntryRef} {w : Bytes} {s : NamespaceStack} (hk : Linked E L F k)
    (hw : writeEntry E e (writerStack B F) = .ok (w, s)) (hlink : linkEntry E L k e = some e')
    (hfits : EntryFits e) :
    s = writerStack B F ∧
      Reads (readEntryPtr L) (readerState E L B F k.world) w e' (readerState E L B F k.world) := by
  obtain ⟨rfl, hread⟩ := reads_writeEntry hk hw hlink hfits
  exact ⟨rfl, hread.bind_nil (Reads.pure _ _)⟩

lemma linkEntry_of_linkLocal {e e' : EntryRef} (h : linkLocal k e = some e') :
    linkEntry E L k e = some e' := by
  obtain ⟨ns, p⟩ := e
  cases ns with
  | block b => exact h
  | module m => simp [linkLocal] at h

/-- The symbol that a copied entry of a block has is the one written for the entry. -/
lemma symbolAt_of_linkLocal {e e' : EntryRef} (hk : Linked E L F k) (h : linkLocal k e = some e') :
    symbolAt L k.world e' = some (E.symbol e) := by
  obtain ⟨ns, p⟩ := e
  cases ns with
  | module m => simp [linkLocal] at h
  | block b =>
    simp only [linkLocal] at h
    split at h
    next b' hb =>
      split at h
      next hlt =>
        obtain rfl := Option.some.inj h
        have hget : (k.world.symbols b')[p]? = some (k.world.symbols b')[p] :=
          List.getElem?_eq_getElem hlt
        rw [symbolAt, symbolsIn, hget, hk.symbols b b' hb p _ hget]
      next => cases h
    next => cases h

lemma writeEntry_length {e : EntryRef} {w : Bytes} {s s' : NamespaceStack}
    (hw : writeEntry E e s = .ok (w, s')) : w.length = 10 := by
  rw [writeEntry, Exec.bind_of_ok (Exec.get_apply _)] at hw
  cases hid : s.namespaceId e.ns with
  | none => simp [hid] at hw
  | some id =>
    simp only [hid, Exec.pure_apply, Except.ok.injEq, Prod.mk.injEq] at hw
    rw [← hw.1, List.length_append, length_writeInt32, length_writeInt32]

lemma reads_pointChain {e e' : EntryRef} {line : UInt32} {outer outer' : List (EntryRef × UInt32)}
    {w : Bytes} {s : NamespaceStack} {fuel : Nat} (hk : Linked E L F k)
    (hw : writePointChain E e line outer (writerStack B F) = .ok (w, s))
    (he : linkEntry E L k e = some e') (ho : copyChain E L outer k = some (outer', k'))
    (hfits : EntryFits e) (hofits : ∀ q ∈ outer, EntryFits q.1) (hfuel : w.length ≤ fuel) :
    s = writerStack B F ∧ k' = k ∧
      Reads (readPointChain L fuel) (readerState E L B F k.world) w ((e', line) :: outer')
        (readerState E L B F k.world) := by
  induction outer generalizing e e' line outer' w fuel s with
  | nil =>
    simp only [writePointChain, Exec.bind_ok_iff, Exec.pure_ok_iff] at hw
    simp only [copyChain, CopyM.pure_some_iff] at ho
    obtain ⟨we, s₁, hwe, rfl, rfl⟩ := hw
    obtain ⟨rfl, rfl⟩ := ho
    obtain ⟨rfl, hread⟩ := reads_entryPtr hk hwe he hfits
    have hlen := writeEntry_length hwe
    simp only [List.length_append] at hfuel
    obtain ⟨f, rfl⟩ : ∃ f, fuel = f + 1 := ⟨fuel - 1, by omega⟩
    refine ⟨rfl, rfl, hread.bind ((reads_line line _).bind ?_)⟩
    exact (reads_writeBool false _).bind_nil (Reads.pure _ _)
  | cons q outer ih =>
    obtain ⟨e₂, line₂⟩ := q
    simp only [writePointChain, Exec.bind_ok_iff, Exec.pure_ok_iff] at hw
    simp only [copyChain, CopyM.bind_some_iff, CopyM.pure_some_iff, copyEntry_some_iff] at ho
    obtain ⟨we, s₁, hwe, wo, s₂, hwo, rfl, rfl⟩ := hw
    obtain ⟨e₂', k₁, ⟨he₂, rfl⟩, outer₂, k₂, ho, rfl, rfl⟩ := ho
    obtain ⟨rfl, hread⟩ := reads_entryPtr hk hwe he hfits
    have hlen := writeEntry_length hwe
    simp only [List.length_append] at hfuel
    obtain ⟨f, rfl⟩ : ∃ f, fuel = f + 1 := ⟨fuel - 1, by omega⟩
    obtain ⟨rfl, rfl, hchain⟩ := ih hwo he₂ ho (hofits (e₂, line₂) List.mem_cons_self)
      (fun q hq => hofits q (List.mem_cons_of_mem _ hq)) (by omega : wo.length ≤ f)
    refine ⟨rfl, rfl, hread.bind ((reads_line line _).bind ((reads_writeBool true _).bind ?_))⟩
    exact hchain.bind_nil (Reads.pure _ _)

lemma reads_point {p p' : Point} {w : Bytes} {s : NamespaceStack} (hk : Linked E L F k)
    (hw : writePoint E p (writerStack B F) = .ok (w, s))
    (hp : copyPoint E L p k = some (p', k')) (hfits : p.Fits) :
    s = writerStack B F ∧ k' = k ∧
      Reads (readPoint L) (readerState E L B F k.world) w p' (readerState E L B F k.world) := by
  simp only [copyPoint, CopyM.bind_some_iff, CopyM.pure_some_iff, copyEntry_some_iff] at hp
  obtain ⟨e', k₁, ⟨he, rfl⟩, outer', k₂, ho, rfl, hk₂⟩ := hp
  obtain ⟨rfl, rfl, -⟩ := reads_pointChain hk hw he ho hfits.1 hfits.2 le_rfl
  have hchain : Reads (fun s => readPointChain L (s.1.length + 1) s) (readerState E L B F k₂.world) w
      ((e', p.line) :: outer') (readerState E L B F k₂.world) := by
    intro rest
    refine (reads_pointChain hk hw he ho hfits.1 hfits.2 ?_).2.2 rest
    rw [List.length_append]
    omega
  exact ⟨rfl, hk₂.symm, hchain.bind_nil (Reads.pure _ _)⟩

/-! ### The symbols of a block -/

lemma foldl_readerState {α : Type} (f : World → α → World) (l : List α) (w : World) :
    l.foldl (fun st a => { st with world := f st.world a }) (readerState E L B F w) =
      readerState E L B F (l.foldl f w) := by
  induction l generalizing w with
  | nil => rfl
  | cons a l ih => exact ih (f w a)

section AddSymbols

variable (l : List Symbol) (w : World) (id : Nat)

lemma next_foldl_addSymbol : (l.foldl (fun w s => w.addSymbol id s) w).next = w.next := by
  induction l generalizing w with
  | nil => rfl
  | cons s l ih => exact ih _

lemma symbols_foldl_addSymbol :
    (l.foldl (fun w s => w.addSymbol id s) w).symbols id = w.symbols id ++ l := by
  induction l generalizing w with
  | nil => simp
  | cons s l ih =>
    rw [List.foldl_cons, ih]
    simp [World.addSymbol]

lemma symbols_foldl_addSymbol_of_ne {id' : Nat} (h : id' ≠ id) :
    (l.foldl (fun w s => w.addSymbol id s) w).symbols id' = w.symbols id' := by
  induction l generalizing w with
  | nil => rfl
  | cons s l ih =>
    rw [List.foldl_cons, ih]
    exact Function.update_of_ne h _ _

end AddSymbols

lemma reads_writeSymbol (hrt : RoundTrips E L) {i : Nat} (hi : i < 2 ^ 32) (e : EntryRef) (id : Nat)
    (st : ReaderState) :
    Reads (readSymbol L id) st (writeSymbol E i (E.symbol e)) ()
      { st with world := st.world.addSymbol id (E.symbol e) } := by
  refine (reads_writeBool _ st).bind ((reads_writeInt32 hi st).bind ?_)
  refine (reads_writeCharp (E.symbol_name_lt e) st).bind ?_
  refine (reads_writeInt32 (E.symbol e).category.code_lt st).bind ?_
  refine (hrt.type _ st).bind_nil ?_
  simp only [Category.getElem?_code]
  exact reads_modifyState _ st

lemma reads_writeSymbols (hrt : RoundTrips E L) {info : BlockInfo} (h : info.symbolCount < 2 ^ 32)
    (id : Nat) (w : World) :
    Reads (countedLoop (fun _ _ => readSymbol L id) 0 info.symbolCount ())
      (readerState E L B F w) (writeSymbols E info) ()
      (readerState E L B F ((symbolsOf E info).foldl (fun w s => w.addSymbol id s) w)) := by
  have hloop : Reads (countedLoop (fun _ _ => readSymbol L id) 0 (List.range info.symbolCount).length ())
      (readerState E L B F w) (writeSymbols E info) ()
      ((List.range info.symbolCount).foldl
        (fun st i => { st with world := st.world.addSymbol id (E.symbol ⟨info.ns, i⟩) })
        (readerState E L B F w)) :=
    reads_countedLoop (fun i hi _ st => reads_writeSymbol hrt
      (Nat.lt_trans (List.mem_range.mp hi) h) ⟨info.ns, i⟩ id st) 0 (readerState E L B F w)
  rw [List.length_range,
    foldl_readerState (fun w i => w.addSymbol id (E.symbol ⟨info.ns, i⟩))] at hloop
  rw [symbolsOf, List.foldl_map]
  exact hloop

lemma update_block_cases {block : Nat → Option Nat} {id next b b' : Nat}
    (h : Function.update block id (some next) b = some b') :
    (b = id ∧ b' = next) ∨ block b = some b' := by
  by_cases hb : b = id
  · subst hb
    rw [Function.update_self] at h
    exact .inl ⟨rfl, (Option.some.inj h).symm⟩
  · rw [Function.update_of_ne hb] at h
    exact .inr h

/-- A new block goes on both stacks. -/
lemma linked_copyHeader {info : BlockInfo} {id : Nat} (hk : Linked E L F k)
    (h : copyHeader E info k = some (id, k')) :
    id = k.world.next ∧
      k'.world = (symbolsOf E info).foldl (fun w s => w.addSymbol id s) k.world.newBlock ∧
      Linked E L (F ++ [Frame.block info.id id]) k' := by
  simp only [copyHeader, CopyM.bind_some_iff, CopyM.get_some_iff, CopyM.set_some_iff,
    CopyM.pure_some_iff, guardCopy_some_iff, modifyWorld_some_iff] at h
  obtain ⟨_, _, ⟨rfl, rfl⟩, _, _, ⟨hnone, rfl⟩, _, _, rfl, _, _, rfl, rfl, rfl⟩ := h
  rw [Option.isNone_iff_eq_none] at hnone
  refine ⟨rfl, rfl, ?_, ?_, ?_, ?_⟩
  · intro b b' hb
    rcases List.mem_append.mp hb with hb | hb
    · have hbk := hk.blocks b b' hb
      have hne : b ≠ info.id := fun heq => by simp [← heq, hbk] at hnone
      exact (Function.update_of_ne hne _ _).trans hbk
    · obtain ⟨rfl, rfl⟩ : b = info.id ∧ b' = k.world.next := by simpa using hb
      exact Function.update_self _ _ _
  · intro m hm
    exact hk.modules m (by simpa using hm)
  · intro b b' hb
    rw [next_foldl_addSymbol]
    rcases update_block_cases hb with ⟨-, rfl⟩ | hb
    · exact Nat.lt_succ_self _
    · exact Nat.lt_succ_of_lt (hk.fresh b b' hb)
  · intro b b' hb i s hs
    rcases update_block_cases hb with ⟨rfl, rfl⟩ | hb
    · rw [symbols_foldl_addSymbol] at hs
      simp only [World.newBlock, Function.update_self, List.nil_append, symbolsOf,
        List.getElem?_map, Option.map_eq_some_iff] at hs
      obtain ⟨j, hj, rfl⟩ := hs
      obtain ⟨-, rfl⟩ := List.getElem?_eq_some_iff.mp hj
      rw [List.getElem_range]
      rfl
    · have hne : b' ≠ k.world.next := Nat.ne_of_lt (hk.fresh b b' hb)
      rw [symbols_foldl_addSymbol_of_ne _ _ _ hne] at hs
      simp only [World.newBlock, Function.update_of_ne hne] at hs
      exact hk.symbols b b' hb i s hs

/-! ### Imports -/

/-- The state in which the references `refs` of an import have been found. -/
def openedState (E : WriterEnv) (L : ReaderEnv) (B : Base) (F : List Frame) (m : Text) (w : World)
    (refs : List Nat) : ReaderState :=
  ⟨⟨B.reader ++ (F ++ [Frame.module m]).map Frame.reader, B.reader.length⟩,
    Function.update (xrefsOf E L B F) (.module m) (refs :: xrefsOf E L B F (.module m)), w⟩

lemma readerState_push_module (F : List Frame) (m : Text) (w : World) :
    (readerState E L B F w).pushNamespace (.module m) true =
      openedState E L B F m w [] := by
  simp [readerState, ReaderState.pushNamespace, ReaderState.openXRefs, openedState,
    NamespaceStack.pushNamespace, Frame.reader]

lemma addXRef_openedState (F : List Frame) (m : Text) (w : World) (refs : List Nat) (p : Nat) :
    (openedState E L B F m w refs).addXRef (.module m) p =
      openedState E L B F m w (refs ++ [p]) := by
  simp [ReaderState.addXRef, openedState]

lemma openedState_xrefVector (F : List Frame) (m : Text) (w : World) :
    openedState E L B F m w (xrefVector E L m) = readerState E L B (F ++ [Frame.module m]) w := by
  rw [openedState, ← xrefsOf_append_module]
  rfl

lemma reads_xref (hrt : RoundTrips E L) {m : Text} {p q : Nat} (h : provided E L m p = some q)
    (st : ReaderState) :
    Reads (readXRef L m) st
      (writeCharp (E.symbol ⟨.module m, p⟩).name ++ E.writeType (E.symbol ⟨.module m, p⟩).type) ()
      (st.addXRef (.module m) q) := by
  rw [provided] at h
  split at h
  next => cases h
  next q' hfind =>
    split at h
    next => cases h
    next s hs =>
      split at h
      next hmatch =>
        obtain rfl := Option.some.inj h
        refine (reads_writeCharp (E.symbol_name_lt _) st).bind ((hrt.type _ st).bind_nil ?_)
        simp only [hfind, hs]
        refine (reads_modifyState _ st).bind_nil ?_
        rw [if_pos hmatch]
        exact Reads.pure _ _
      next => cases h

lemma foldl_addXRef (F : List Frame) (m : Text) (w : World) (ps : List Nat) (refs : List Nat) :
    ps.foldl (fun st p => ReaderState.addXRef st (.module m) ((provided E L m p).getD 0))
        (openedState E L B F m w refs) =
      openedState E L B F m w
        (refs ++ ps.map fun p => (provided E L m p).getD 0) := by
  induction ps generalizing refs with
  | nil => simp
  | cons p ps ih =>
    rw [List.foldl_cons, addXRef_openedState, ih, List.map_cons, List.append_assoc,
      List.singleton_append]

lemma reads_import (hrt : RoundTrips E L) {name : CText} (hname : name.Fits)
    (hmodule : (L.modules name.text).isSome)
    (hprovided : ∀ p ∈ E.usage name.text, (provided E L name.text p).isSome) (line : UInt32)
    (w : World) :
    Reads (readImport L line) (readerState E L B F w)
      (writeCharp name ++ writeUsage E name.text) (.node (.ysImport line name))
      (readerState E L B (F ++ [Frame.module name.text]) w) := by
  obtain ⟨symbols, hsymbols⟩ := Option.isSome_iff_exists.mp hmodule
  have hlt := E.usage_length_lt name.text
  refine (reads_writeCharp hname _).bind ?_
  simp only [hsymbols]
  refine Reads.bind (w := []) (reads_modifyState _ _) ?_
  rw [readerState_push_module]
  refine (reads_writeInt32 (by omega) _).bind ?_
  rw [if_pos hlt]
  have hxref (p : Nat) (hp : p ∈ E.usage name.text) (_ : Nat) (st : ReaderState) :
      Reads (readXRef L name.text) st
        (writeCharp (E.symbol ⟨.module name.text, p⟩).name ++
          E.writeType (E.symbol ⟨.module name.text, p⟩).type) ()
        (st.addXRef (.module name.text) ((provided E L name.text p).getD 0)) := by
    obtain ⟨q, hq⟩ := Option.isSome_iff_exists.mp (hprovided p hp)
    rw [hq]
    exact reads_xref hrt hq st
  have hloop : Reads (countedLoop (fun _ _ => readXRef L name.text) 0 (E.usage name.text).length ())
      (openedState E L B F name.text w [])
      ((E.usage name.text).flatMap fun p => writeCharp (E.symbol ⟨.module name.text, p⟩).name ++
        E.writeType (E.symbol ⟨.module name.text, p⟩).type) ()
      ((E.usage name.text).foldl (fun st p => ReaderState.addXRef st (.module name.text)
        ((provided E L name.text p).getD 0))
        (openedState E L B F name.text w [])) :=
    reads_countedLoop hxref 0 _
  rw [foldl_addXRef, List.nil_append] at hloop
  refine hloop.bind_nil ?_
  rw [show (E.usage name.text).map (fun p => (provided E L name.text p).getD 0) =
    xrefVector E L name.text from rfl, openedState_xrefVector]
  exact Reads.pure _ _

/-! ### Constants -/

lemma writeOfOption_ok_iff {o : Option Bytes} {w : Bytes} {s s' : NamespaceStack} :
    writeOfOption o s = .ok (w, s') ↔ o = some w ∧ s = s' := by
  cases o <;> simp [writeOfOption]

/-- The tag of a constant is the first byte written for it. -/
lemma bytesOf_constant {v : YCPValue} (hv : v.Constant E.isprint) :
    ∃ payload, bytesOf E.isprint E.writeQuoted (fun _ => none) v =
      UInt8.ofNat v.valuetype :: payload := by
  cases v with
  | list l =>
    simp only [YCPValue.Constant, YCPValue.constantList_iff] at hv
    exact ⟨_, (accepted_list hv.1 fun v hl => accepted_constant (hv.2 v hl)).2⟩
  | term n l =>
    simp only [YCPValue.Constant, YCPValue.constantList_iff] at hv
    exact ⟨_, (accepted_term hv.2.2.1 fun v hl => accepted_constant (hv.2.2.2 v hl)).2⟩
  | map m =>
    simp only [YCPValue.Constant, YCPValue.constantMap_iff] at hv
    exact ⟨_, (accepted_map fun e he =>
      ⟨accepted_constant (hv.2.2 e he).1, accepted_constant (hv.2.2 e he).2⟩).2⟩
  | void => exact ⟨_, rfl⟩
  | boolean b => exact ⟨_, rfl⟩
  | integer i => exact ⟨_, rfl⟩
  | string t => exact ⟨_, rfl⟩
  | byteblock b => exact ⟨_, rfl⟩
  | path p => exact ⟨_, rfl⟩
  | symbol t => exact ⟨_, rfl⟩
  | _ => simp [YCPValue.Constant] at hv

lemma readPayload_decides {v : YCPValue} (hv : v.Constant E.isprint) (st : ReaderState) :
    Decides (readPayload L (UInt8.ofNat v.valuetype)) st
      (bytesOf E.isprint E.writeQuoted (fun _ => none) v).tail (v.Fits E.isprint) v.carried st := by
  obtain ⟨payload, hpayload⟩ := bytesOf_constant hv
  have hdecides : Decides (readValue L.readQuoted) st
      (bytesOf E.isprint E.writeQuoted (fun _ => none) v) (v.Fits E.isprint) v.carried st :=
    readValue_decides L.readQuoted st hv
  rw [hpayload] at hdecides ⊢
  exact ⟨fun hfit rest => hdecides.reads hfit rest, fun hfit rest => hdecides.faults hfit rest⟩

lemma isNull_carried {isprint : UInt8 → Bool} {v : YCPValue} (hv : v.Constant isprint) :
    v.carried.isNull = false := by
  cases v <;> first | rfl | simp [YCPValue.Constant] at hv

lemma readCase_decides {c : YCPValue × Int32} (hc : c.1.Constant E.isprint)
    (cases : List (YCPValue × Int32)) (st : ReaderState) :
    Decides (readCase L cases) st
      (bytesOf E.isprint E.writeQuoted (fun _ => none) c.1 ++ writeInt c.2) (c.1.Fits E.isprint)
      (caseInsert c.1.carried c.2 cases) st := by
  refine ((readValue_decides L.readQuoted st hc).bind (Reads.decides ?_)).congr (and_iff_left trivial)
  rw [if_neg (by simp [isNull_carried hc])]
  exact (reads_int c.2 st).bind_nil (Reads.pure _ _)

lemma writeCases_ok {cases : List (YCPValue × Int32)} {w : Bytes} {s s' : NamespaceStack}
    (hcases : ∀ c ∈ cases, c.1.Constant E.isprint) (hw : writeCases E cases s = .ok (w, s')) :
    s' = s ∧ w = cases.flatMap fun c =>
      bytesOf E.isprint E.writeQuoted (fun _ => none) c.1 ++ writeInt c.2 := by
  induction cases generalizing w s with
  | nil =>
    simp only [writeCases, Exec.pure_ok_iff] at hw
    exact ⟨hw.2.symm, hw.1.symm⟩
  | cons c cases ih =>
    simp only [writeCases, Exec.bind_ok_iff, Exec.pure_ok_iff, writeOfOption_ok_iff] at hw
    obtain ⟨wv, s₁, ⟨hv, rfl⟩, wc, s₂, hwc, rfl, rfl⟩ := hw
    obtain ⟨rfl, rfl⟩ := ih (fun c hc => hcases c (List.mem_cons_of_mem _ hc)) hwc
    refine ⟨rfl, ?_⟩
    rw [List.flatMap_cons, (accepted_of_eq hv).2, List.append_assoc]

lemma foldIdx_eq_foldl {α γ : Type} (f : α → γ → α) (l : List γ) (i : Nat) (a : α) :
    foldIdx (fun _ a x => f a x) i l a = l.foldl f a := by
  induction l generalizing i a with
  | nil => rfl
  | cons x l ih => exact ih _ _

lemma readCases_decides {cases : List (YCPValue × Int32)}
    (hcases : ∀ c ∈ cases, c.1.Constant E.isprint) (st : ReaderState) :
    Decides (countedLoop (fun _ cases => readCase L cases) 0 cases.length []) st
      (cases.flatMap fun c => bytesOf E.isprint E.writeQuoted (fun _ => none) c.1 ++ writeInt c.2)
      (∀ c ∈ cases, c.1.Fits E.isprint) (carriedCases cases) st := by
  have hloop := decides_countedLoop (fun c hc (_ : Nat) a => readCase_decides (L := L) (hcases c hc) a st)
    0 []
  rwa [foldIdx_eq_foldl] at hloop

/-! ### Steps in step -/

/-- What has been pushed between two stacks and is still there are modules, and blocks that were made
in between. -/
structure Extends (F : List Frame) (k : Links) (F' : List Frame) (k' : Links) : Prop where
  next_le : k.world.next ≤ k'.world.next
  pushed : ∃ G, F' = F ++ G ∧ ∀ b b', Frame.block b b' ∈ G → k.world.next ≤ b'

lemma Extends.of_next (F : List Frame) (h : k.world.next ≤ k'.world.next) : Extends F k F k' :=
  ⟨h, [], by simp⟩

lemma Extends.refl (F : List Frame) (k : Links) : Extends F k F k := .of_next F le_rfl

lemma Extends.trans {F'' : List Frame} {k'' : Links} (h : Extends F k F' k')
    (h' : Extends F' k' F'' k'') : Extends F k F'' k'' := by
  obtain ⟨hle, G, rfl, hG⟩ := h
  obtain ⟨hle', G', rfl, hG'⟩ := h'
  refine ⟨hle.trans hle', G ++ G', List.append_assoc _ _ _, ?_⟩
  intro b b' hb
  rcases List.mem_append.mp hb with hb | hb
  · exact hG b b' hb
  · exact hle.trans (hG' b b' hb)

section Simulation

variable (E L B) {α β : Type}

/-- Where the writer has gone from the frames `F` to the stack `s`, the reader takes its bytes `w`,
yields `a` and reaches the same frames, or faults if the constants do not fit. -/
def Simulates (r : CodeReader α) (F : List Frame) (k : Links) (w : Bytes) (s : NamespaceStack)
    (good : Prop) (a : α) (k' : Links) : Prop :=
  ∃ F', Extends F k F' k' ∧ s = writerStack B F' ∧ Linked E L F' k' ∧
    Decides r (readerState E L B F k.world) w good a (readerState E L B F' k'.world)

variable {E L B} {r : CodeReader α} {f : α → CodeReader β} {w w' : Bytes} {s s' : NamespaceStack}
  {good good' : Prop} {a : α} {b : β} {k'' : Links}

lemma Simulates.congr (h : Simulates E L B r F k w s good a k') (hiff : good ↔ good') :
    Simulates E L B r F k w s good' a k' := by
  rwa [← propext hiff]

lemma Simulates.bind (h : Simulates E L B r F k w s good a k')
    (h' : ∀ F', s = writerStack B F' → Linked E L F' k' →
      Simulates E L B (f a) F' k' w' s' good' b k'') :
    Simulates E L B (r >>= f) F k (w ++ w') s' (good ∧ good') b k'' := by
  obtain ⟨F₁, hext, hs, hk, hdecides⟩ := h
  obtain ⟨F₂, hext', hs', hk', hdecides'⟩ := h' F₁ hs hk
  exact ⟨F₂, hext.trans hext', hs', hk', hdecides.bind hdecides'⟩

/-- A last step that does not depend on the constants. -/
lemma Simulates.bind_last (h : Simulates E L B r F k w s good a k')
    (h' : ∀ F', s = writerStack B F' → Linked E L F' k' →
      Simulates E L B (f a) F' k' w' s' True b k'') :
    Simulates E L B (r >>= f) F k (w ++ w') s' good b k'' :=
  (h.bind h').congr (and_iff_left trivial)

/-- A last step that takes nothing and leaves the state alone. -/
lemma Simulates.map (h : Simulates E L B r F k w s good a k')
    (h' : ∀ st, Reads (f a) st [] b st) : Simulates E L B (r >>= f) F k w s good b k' := by
  obtain ⟨F₁, hext, hs, hk, hdecides⟩ := h
  exact ⟨F₁, hext, hs, hk, hdecides.map (h' _)⟩

lemma Simulates.after {F₀ : List Frame} {k₀ : Links}
    (h : Reads r (readerState E L B F₀ k₀.world) w a (readerState E L B F k.world))
    (hext : Extends F₀ k₀ F k) (h' : Simulates E L B (f a) F k w' s good b k') :
    Simulates E L B (r >>= f) F₀ k₀ (w ++ w') s good b k' := by
  obtain ⟨F₁, hext', hs, hk, hdecides⟩ := h'
  exact ⟨F₁, hext.trans hext', hs, hk, h.bind_decides hdecides⟩

/-- A first step that leaves the state alone. -/
lemma Simulates.first (h : ∀ st, Reads r st w a st)
    (h' : Simulates E L B (f a) F k w' s good b k') :
    Simulates E L B (r >>= f) F k (w ++ w') s good b k' :=
  .after (h _) (Extends.refl F k) h'

lemma simulates_of_reads (hk : Linked E L F k)
    (h : Reads r (readerState E L B F k.world) w a (readerState E L B F k.world)) :
    Simulates E L B r F k w (writerStack B F) True a k :=
  ⟨F, Extends.refl F k, rfl, hk, h.decides⟩

/-- A step after which the writer has its stack back. -/
lemma Simulates.exact (h : Simulates E L B r F k w (writerStack B F) good a k') :
    k.world.next ≤ k'.world.next ∧ Linked E L F k' ∧
      Decides r (readerState E L B F k.world) w good a (readerState E L B F k'.world) := by
  obtain ⟨F', ⟨hle, G, rfl, -⟩, hs, hk, hdecides⟩ := h
  have hlen : (writerStack B F).nesting.length = (writerStack B (F ++ G)).nesting.length :=
    congrArg (fun s => s.nesting.length) hs
  obtain rfl : G = [] := by
    refine List.eq_nil_of_length_eq_zero ?_
    simp only [writerStack, List.length_append, List.length_map] at hlen
    omega
  rw [List.append_nil] at hk hdecides
  exact ⟨hle, hk, hdecides⟩

end Simulation

end Bytecode

end YastCore
