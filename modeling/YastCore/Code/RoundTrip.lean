import YastCore.Code.Statements

/-!
# The round trip of code through bytecode

For every tree that the writer accepts and that has a copy, the reader makes of the bytes of the
tree its copy, as long as the counts of the tree fit the types that they are kept in.
-/

namespace YastCore

namespace Bytecode

open Codec YCode

variable {E : WriterEnv} {L : ReaderEnv} {B : Base} {F : List Frame} {k k' : Links} {c c' : YCode}
  {w : Bytes} {s : NamespaceStack}

/-- The reader follows the writer through every tree. -/
theorem follows_of_writable (hrt : RoundTrips E L) (c : YCode) (h : Writable E c) :
    Follows E L B c := by
  induction c using YCode.induct with
  | null =>
    intro F k w s c' k' fuel hw
    simp [toStream] at hw
  | node n ih =>
    rw [Writable, every_node] at h
    obtain ⟨⟨hsized, hconstants⟩, hbelow⟩ := h
    have ihw (c : YCode) (hc : c ∈ written E n) : Follows E L B c :=
      ih c (written_subset_children hc) (hbelow c hc)
    cases n with
    | yConst kind v =>
      cases v with
      | entry e => exact follows_yConst_entry kind hsized
      | _ => exact follows_yConst kind hconstants
    | ycLocale locale domain => exact follows_ycLocale hsized
    | ycFunction declaration definition =>
      exact follows_ycFunction (fun h => ihw _ (by simp [h])) definition
    | yePropagate source target value => exact follows_yePropagate hrt source target (ihw _ (by simp))
    | yeUnary decl arg => exact follows_yeUnary hrt decl (ihw _ (by simp))
    | yeBinary decl arg1 arg2 => exact follows_yeBinary hrt decl (ihw _ (by simp)) (ihw _ (by simp))
    | yeTriple expr ifTrue ifFalse =>
      exact follows_yeTriple (ihw _ (by simp)) (ihw _ (by simp)) (ihw _ (by simp))
    | yeCompare left op right => exact follows_yeCompare op (ihw _ (by simp)) (ihw _ (by simp))
    | yeLocale singular plural count domain => exact follows_yeLocale hsized (ihw _ (by simp))
    | yeList elements => exact follows_yeList hsized ihw
    | yeMap entries =>
      refine follows_yeMap hsized fun e he => ⟨ihw _ ?_, ihw _ ?_⟩
      · exact List.mem_flatMap.mpr ⟨e, he, by simp⟩
      · exact List.mem_flatMap.mpr ⟨e, he, by simp⟩
    | yeTerm name parameters => exact follows_yeTerm hsized.1 hsized.2 ihw
    | yeIs type expr => exact follows_yeIs hrt type (ihw _ (by simp))
    | yeBracket var arg default resultType =>
      exact follows_yeBracket hrt resultType (ihw _ (by simp)) (ihw _ (by simp)) (ihw _ (by simp))
    | yeBlock info table point statements =>
      refine follows_yeBlock hrt hsized (fun htable i hi hfunction hglobal => ihw _ ?_)
        fun c hc => ihw c (List.mem_append_right _ hc)
      refine List.mem_append_left _ ?_
      rw [if_pos htable]
      exact List.mem_map_of_mem (List.mem_filter.mpr ⟨hi, by simp [hfunction, hglobal]⟩)
    | yeReturn expr => exact follows_yeReturn (ihw _ (by simp))
    | yeVariable entry => exact follows_yeVariable hsized
    | yeBuiltin type decl parameterblock parameters =>
      exact follows_yeBuiltin hrt type decl hsized (ihw _ List.mem_cons_self)
        fun c hc => ihw c (List.mem_cons_of_mem _ hc)
    | yeFunction entry parameters => exact follows_yeFunction hsized.1 hsized.2 ihw
    | yeReference entry => exact follows_yeReference hsized
    | yeFunctionPointer entry parameters => exact follows_yeFunctionPointer hsized.1 hsized.2 ihw
    | ysTypedef line name type => exact follows_ysTypedef line hrt hsized type
    | ysVariable line entry code => exact follows_ysVariable line hsized (ihw _ (by simp))
    | ysFunction line entry declaration definition =>
      exact follows_ysFunction line hsized (fun hglobal hneed => ihw _ (by simp [hglobal, hneed]))
        (ihw _ (by simp))
    | ysAssign line entry code => exact follows_ysAssign line hsized (ihw _ (by simp))
    | ysBracket line entry arg code =>
      exact follows_ysBracket line hsized (ihw _ (by simp)) (ihw _ (by simp))
    | ysIf line condition ifTrue ifFalse =>
      exact follows_ysIf line (ihw _ (by simp)) (ihw _ (by simp)) (ihw _ (by simp))
    | ysWhile line condition loop => exact follows_ysWhile line (ihw _ (by simp)) (ihw _ (by simp))
    | ysDo line condition loop => exact follows_ysDo line (ihw _ (by simp)) (ihw _ (by simp))
    | ysRepeat line condition loop => exact follows_ysRepeat line (ihw _ (by simp)) (ihw _ (by simp))
    | ysExpression line expr => exact follows_ysExpression line (ihw _ (by simp))
    | ysReturn line value => exact follows_ysReturn line (ihw _ (by simp))
    | ysBreak line => exact follows_ysBreak line
    | ysContinue line => exact follows_ysContinue line
    | ysTextdomain line domain => exact follows_ysTextdomain line hsized
    | ysInclude line filename skipped => exact follows_ysInclude line hsized skipped
    | ysFilename line filename => exact follows_ysFilename line hsized
    | ysImport line name => exact follows_ysImport line hrt hsized
    | ysBlock line block => exact follows_ysBlock line (ihw _ (by simp))
    | ysSwitch line condition cases defaultcase block =>
      exact follows_ysSwitch line defaultcase hsized hconstants.1 (ihw _ (by simp)) (ihw _ (by simp))

lemma eq_of_writer_eq {f f' : Frame} {F' : List Frame} (hk : Linked E L F k) (hk' : Linked E L F' k)
    (hf : f ∈ F) (hf' : f' ∈ F') (h : f.writer = f'.writer) : f = f' := by
  cases f with
  | module m => cases f' <;> simp_all [Frame.writer]
  | block b c =>
    cases f' with
    | module m => simp [Frame.writer] at h
    | block b' c' =>
      obtain rfl : b = b' := by simpa [Frame.writer] using h
      have hlinks := (hk.blocks b c hf).symm.trans (hk'.blocks b c' hf')
      rw [Option.some.inj hlinks]

/-- The stack of the writer and the links determine the frames. -/
lemma frames_unique {F' : List Frame} (hk : Linked E L F k) (hk' : Linked E L F' k)
    (h : writerStack B F = writerStack B F') : F = F' := by
  have hmap : F.map Frame.writer = F'.map Frame.writer :=
    List.append_cancel_left (congrArg NamespaceStack.nesting h)
  have hlen : F.length = F'.length := by simpa using congrArg List.length hmap
  refine List.ext_getElem hlen fun i hi hi' => ?_
  refine eq_of_writer_eq hk hk' (List.getElem_mem hi) (List.getElem_mem hi') ?_
  simpa [List.getElem?_eq_getElem hi, List.getElem?_eq_getElem hi'] using
    congrArg (fun l => l[i]?) hmap

/-- `readCode` has enough fuel for what was written. -/
theorem simulates_readCode (hrt : RoundTrips E L) (hw : toStream E c (writerStack B F) = .ok (w, s))
    (hc : copy E L c k = some (c', k')) (hk : Linked E L F k) (hwritable : Writable E c) :
    Simulates E L B (readCode L) F k w s (Readable E c) c' k' := by
  have hfollows := follows_of_writable (B := B) hrt c hwritable
  obtain ⟨F', hext, rfl, hk', -⟩ := (hfollows hw hc hk le_rfl).1
  have hdecides (rest : Bytes) : Decides (readCodeFuel L ((w ++ rest).length + 1))
      (readerState E L B F k.world) w (Readable E c) c' (readerState E L B F' k'.world) := by
    have hlen : w.length ≤ (w ++ rest).length + 1 := by
      rw [List.length_append]
      omega
    obtain ⟨F₁, -, hs, hk₁, hread⟩ := (hfollows hw hc hk hlen).1
    rwa [frames_unique hk' hk₁ hs]
  exact ⟨F', hext, rfl, hk', fun hgood rest => (hdecides rest).reads hgood rest,
    fun hgood rest => (hdecides rest).faults hgood rest⟩

/-! ### References -/

/-- A tree is read as its copy, and after it the reader again finds the copy of every symbol that
the writer can refer to. -/
theorem readCode_resolves (hrt : RoundTrips E L) (hwrite : toStream E c (writerStack B F) = .ok (w, s))
    (hcopy : copy E L c k = some (c', k')) (hlinked : Linked E L F k) (hwritable : Writable E c)
    (hreadable : Readable E c) :
    ∃ F', s = writerStack B F' ∧ Linked E L F' k' ∧
      Reads (readCode L) (readerState E L B F k.world) w c' (readerState E L B F' k'.world) ∧
      ∀ e e' we s', writeEntry E e s = .ok (we, s') → linkEntry E L k' e = some e' → EntryFits e →
        Reads (readEntry L) (readerState E L B F' k'.world) we (some e')
          (readerState E L B F' k'.world) := by
  obtain ⟨F', -, rfl, hk', hdecides⟩ := simulates_readCode hrt hwrite hcopy hlinked hwritable
  refine ⟨F', rfl, hk', hdecides.reads hreadable, fun e e' we s' hw he hfits => ?_⟩
  exact (reads_writeEntry hk' hw he hfits).2

lemma xrefsOf_nil : xrefsOf E L B [] = B.xrefs := by
  funext ns
  cases ns <;> simp [xrefsOf]

/-- A module is read above whatever is being read when it is imported, and that is found again as it
was. -/
theorem readModule_copy (hrt : RoundTrips E L) {st : ReaderState}
    (htare : st.stack.tare ≤ st.stack.nesting.length) {writer : List NamespaceEntry}
    (hwrite : toStream E c (writerStack ⟨writer, st.stack.nesting, st.xrefs⟩ []) = .ok (w, s))
    (hcopy : copy E L c k = some (c', k')) (hworld : k.world = st.world) (hlinked : Linked E L [] k)
    (hblock : c.blockInfo.isSome = true) (hwritable : Writable E c) (hreadable : Readable E c)
    (input : Bytes) :
    readModule L w (input, st) = .ok (c', (input, { st with world := k'.world })) := by
  obtain ⟨info, hinfo⟩ := Option.isSome_iff_exists.mp hblock
  have hfollows : Follows E L ⟨writer, st.stack.nesting, st.xrefs⟩ c := follows_of_writable hrt c hwritable
  obtain ⟨rfl, -⟩ := (hfollows hwrite hcopy hlinked le_rfl).2 info hinfo
  obtain ⟨-, -, hdecides⟩ := (simulates_readCode hrt hwrite hcopy hlinked hwritable).exact
  have hread := hdecides.reads hreadable []
  rw [List.append_nil] at hread
  have hstate (w : World) : readerState E L ⟨writer, st.stack.nesting, st.xrefs⟩ [] w =
      ⟨⟨st.stack.nesting, st.stack.nesting.length⟩, st.xrefs, w⟩ := by
    simp [readerState, xrefsOf_nil]
  rw [hstate, hstate, hworld] at hread
  have huntare : st.stack.nesting.length - (st.stack.nesting.length - st.stack.tare) = st.stack.tare := by
    omega
  refine (readModule_of_ok L hread).trans ?_
  simp only [NamespaceStack.tareStack, NamespaceStack.untareStack, huntare]

/-- The types `any`, `list <any>`, `list <list <any>>` and so on, as they are written. -/
def writeListType : Nat → Bytes
  | 0 => writeInt32 2 ++ (writeBool false ++ writeBool false)
  | n + 1 => writeInt32 16 ++ (writeBool false ++ (writeBool false ++ writeListType n))

def readListType : Nat → CodeReader TypeId
  | 0 => throw .outOfFuel
  | fuel + 1 => do
    let kind ← readInt32
    let _ ← readBool
    let _ ← readBool
    if kind = 16 then return (← readListType fuel) + 1 else return 0

lemma reads_listType (n : Nat) {fuel : Nat} (hfuel : (writeListType n).length ≤ fuel)
    (st : ReaderState) : Reads (readListType fuel) st (writeListType n) n st := by
  induction n generalizing fuel with
  | zero =>
    obtain ⟨f, rfl⟩ : ∃ f, fuel = f + 1 := ⟨fuel - 1, by simp [writeListType, writeBool] at hfuel; omega⟩
    refine (reads_writeInt32 (by decide) st).bind ((reads_writeBool false st).bind ?_)
    exact (reads_writeBool false st).bind_nil (Reads.pure 0 st)
  | succ n ih =>
    simp only [writeListType, writeBool, List.length_append, List.length_cons] at hfuel
    obtain ⟨f, rfl⟩ : ∃ f, fuel = f + 1 := ⟨fuel - 1, by omega⟩
    refine (reads_writeInt32 (by decide) st).bind ((reads_writeBool false st).bind ?_)
    refine (reads_writeBool false st).bind ?_
    rw [if_pos rfl]
    exact (ih (by omega)).bind_nil (Reads.pure (n + 1) st)

/-- The symbols are variables of type `any` that are called `a`; nothing is imported. -/
def plainWriter : WriterEnv where
  isprint := isprintC
  symbol _ := ⟨false, ⟨[97], by decide⟩, .c_variable, 0⟩
  symbol_name_lt _ := by decide
  usage _ := []
  usage_length_lt _ := by decide
  writeType := writeListType
  writeDeclaration := writeListType
  writeQuoted _ := none

def plainReader : ReaderEnv where
  modules _ := none
  find _ _ := none
  matchType t t' := t = t'
  readType s := readListType (s.1.length + 1) s
  readDeclaration := do return some (← fun s => readListType (s.1.length + 1) s)
  readQuoted := throw .invalid

lemma roundTrips_plain : RoundTrips plainWriter plainReader := by
  have htype (n : Nat) (st : ReaderState) :
      Reads (fun s => readListType (s.1.length + 1) s) st (writeListType n) n st := by
    intro rest
    refine reads_listType n ?_ st rest
    rw [List.length_append]
    omega
  exact ⟨htype, fun d st => (htype d st).bind_nil (Reads.pure _ _)⟩

/-- No block has been read. -/
def noLinks : Links := ⟨⟨0, fun _ => [], fun _ => .null⟩, fun _ => none⟩

lemma linked_noLinks : Linked E L [] noLinks :=
  ⟨by simp, by simp, by simp [noLinks], by simp [noLinks]⟩

/-- `{ any a = ..; a; }` in a file. -/
def oneVariable : YCode :=
  .node (.yeBlock ⟨0, ⟨[102], by decide⟩, .b_file, 1⟩ [] ⟨⟨.block 0, 0⟩, 1, []⟩
    [.node (.ysExpression 2 (.node (.yeVariable ⟨.block 0, 0⟩)))])

lemma writable_oneVariable : Writable plainWriter oneVariable := by
  simp [Writable, oneVariable, every_node, Node.Sized, Node.Constants, CText.Fits, BlockInfo.hasTable,
    Point.Fits, EntryFits]

lemma readable_oneVariable : Readable plainWriter oneVariable := by
  simp [oneVariable, BlockInfo.hasTable]

theorem readCode_resolves_oneVariable :
    ∃ w s c' k', toStream plainWriter oneVariable (writerStack ⟨[], [], fun _ => []⟩ []) = .ok (w, s) ∧
      copy plainWriter plainReader oneVariable noLinks = some (c', k') ∧
      ∃ F', s = writerStack ⟨[], [], fun _ => []⟩ F' ∧ Linked plainWriter plainReader F' k' ∧
        Reads (readCode plainReader)
          (readerState plainWriter plainReader ⟨[], [], fun _ => []⟩ [] noLinks.world) w c'
          (readerState plainWriter plainReader ⟨[], [], fun _ => []⟩ F' k'.world) := by
  refine ⟨_, _, _, _, rfl, rfl, ?_⟩
  obtain ⟨F', hs, hk, hreads, -⟩ := readCode_resolves roundTrips_plain (B := ⟨[], [], fun _ => []⟩)
    (c := oneVariable) (k := noLinks) rfl rfl linked_noLinks writable_oneVariable
    readable_oneVariable
  exact ⟨F', hs, hk, hreads⟩

/-- Inside a block of `n` variables and its copy. -/
def inBlockOf (n : Nat) : Links :=
  ⟨⟨1, fun _ => List.replicate n (plainWriter.symbol ⟨.block 0, 0⟩), fun _ => .null⟩,
    fun b => if b = 0 then some 0 else none⟩

lemma linked_inBlockOf (n : Nat) : Linked plainWriter plainReader [.block 0 0] (inBlockOf n) := by
  refine ⟨?_, by simp, ?_, ?_⟩
  · intro b b' hb
    obtain ⟨rfl, rfl⟩ : b = 0 ∧ b' = 0 := by simpa using hb
    rfl
  · intro b b' hb
    simp only [inBlockOf, Option.ite_none_right_eq_some, Option.some.injEq] at hb ⊢
    omega
  · intro b b' hb i s hs
    simp only [inBlockOf, List.getElem?_replicate, Option.ite_none_right_eq_some,
      Option.some.injEq] at hs
    rw [← hs.2]
    rfl

lemma copy_variable {n p : Nat} (h : p < n) :
    copy plainWriter plainReader (.node (.yeVariable ⟨.block 0, p⟩)) (inBlockOf n) =
      some (.node (.yeVariable ⟨.block 0, p⟩), inBlockOf n) := by
  simp only [copy, copyNode, CopyM.bind_some_iff, CopyM.pure_some_iff, copyEntry_some_iff]
  refine ⟨_, _, ⟨_, _, ⟨?_, rfl⟩, rfl, rfl⟩, rfl, rfl⟩
  simp [linkEntry, linkLocal, inBlockOf, h]

lemma toStream_variable (p : Nat) :
    toStream plainWriter (.node (.yeVariable ⟨.block 0, p⟩))
        (writerStack ⟨[], [], fun _ => []⟩ [.block 0 0]) =
      .ok (29 :: (writeInt32 0 ++ writeInt32 p), writerStack ⟨[], [], fun _ => []⟩ [.block 0 0]) := by
  simp only [toStream, toStreamNode, Exec.bind_ok_iff, Exec.pure_ok_iff]
  exact ⟨_, _, rfl, rfl, rfl⟩

lemma readEntry_far (L : ReaderEnv) {w : World} {p : Nat} (h : 2 ^ 31 ≤ p) (hp : p < 2 ^ 32) :
    Faults (readEntry L) (readerState E L B [.block 0 0] w) (writeInt32 0 ++ writeInt32 p) := by
  refine (reads_writeInt32 (by decide) _).bind_faults ?_
  rw [← List.append_nil (writeInt32 p)]
  refine (reads_writeInt32 hp _).bind_faults (Reads.bind_faults (w := []) (reads_getState _) ?_)
  have hptr : (readerState E L B [.block 0 0] w).stack.namespacePtr 0 = some (.block 0) :=
    namespacePtr_readerState (f := .block 0 0) rfl
  rw [if_neg (by decide)]
  simp only [hptr]
  rw [if_pos h]
  exact Reads.throw_faults _ _ _

lemma readCode_far (L : ReaderEnv) {w : World} {p : Nat} (h : 2 ^ 31 ≤ p) (hp : p < 2 ^ 32) :
    Faults (readCode L) (readerState E L B [.block 0 0] w) (29 :: (writeInt32 0 ++ writeInt32 p)) := by
  have hexpression (f : Nat) : Faults (readExpression L (readCodeFuel L f) 29)
      (readerState E L B [.block 0 0] w) (writeInt32 0 ++ writeInt32 p) :=
    ((readEntry_far L h hp).bind_nil _).bind_nil _
  have hstep (f : Nat) : Faults (readCodeFuel L (f + 1)) (readerState E L B [.block 0 0] w)
      (29 :: (writeInt32 0 ++ writeInt32 p)) := by
    refine Reads.bind_faults (w := [29]) (reads_next _ _ _) ?_
    rw [if_neg (by decide), if_neg (by decide)]
    exact hexpression f
  exact fun rest => hstep _ rest

/-- The last of `2 ^ 31 + 1` variables has a position that the reader takes for a reference to
another module. -/
theorem readCode_last_variable :
    Linked plainWriter plainReader [.block 0 0] (inBlockOf (2 ^ 31 + 1)) ∧
    toStream plainWriter (.node (.yeVariable ⟨.block 0, 2 ^ 31⟩))
        (writerStack ⟨[], [], fun _ => []⟩ [.block 0 0]) =
      .ok (29 :: (writeInt32 0 ++ writeInt32 (2 ^ 31)),
        writerStack ⟨[], [], fun _ => []⟩ [.block 0 0]) ∧
    copy plainWriter plainReader (.node (.yeVariable ⟨.block 0, 2 ^ 31⟩)) (inBlockOf (2 ^ 31 + 1)) =
      some (.node (.yeVariable ⟨.block 0, 2 ^ 31⟩), inBlockOf (2 ^ 31 + 1)) ∧
    ∃ e, readCode plainReader (29 :: (writeInt32 0 ++ writeInt32 (2 ^ 31)),
        readerState plainWriter plainReader ⟨[], [], fun _ => []⟩ [.block 0 0]
          (inBlockOf (2 ^ 31 + 1)).world) = .error e := by
  refine ⟨linked_inBlockOf _, toStream_variable _, copy_variable (by omega), ?_⟩
  have hfaults : Faults (readCode plainReader) (readerState plainWriter plainReader
      ⟨[], [], fun _ => []⟩ [.block 0 0] (inBlockOf (2 ^ 31 + 1)).world)
      (29 :: (writeInt32 0 ++ writeInt32 (2 ^ 31))) := readCode_far _ le_rfl (by decide)
  simpa using hfaults []

end Bytecode

end YastCore
