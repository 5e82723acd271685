import YastCore.Code.CopyLike
import YastCore.Code.RoundTrip
import YastCore.Interp.Layout

/-!
# Programs from bytecode

Code that has been written to bytecode and read back computes what the written code computes. The trees that
are read are copies of the written ones, the copies are like them, and trees that are alike run alike.
-/

namespace YastCore

open Bytecode

variable {E : WriterEnv} {L : ReaderEnv} {K : Links}

/-! ### Constants -/

namespace YCPValue

variable {C : Correspondence} {isprint : UInt8 → Bool}

/-- A constant that holds no code and no symbol is the same for every program. -/
lemma Corresponds.refl_of_constant {v : YCPValue} (h : v.Constant isprint) : Corresponds C v v := by
  induction v using YCPValue.induct with
  | list l ih =>
    obtain ⟨-, hl⟩ := h
    rw [constantList_iff] at hl
    exact .list (List.forall₂_same.mpr fun w hw => ih w hw (hl w hw))
  | term n l ih =>
    obtain ⟨-, -, -, hl⟩ := h
    rw [constantList_iff] at hl
    exact .term n (List.forall₂_same.mpr fun w hw => ih w hw (hl w hw))
  | map m ih =>
    obtain ⟨-, -, hm⟩ := h
    rw [constantMap_iff] at hm
    refine .map (List.forall₂_same.mpr fun e he => ?_)
    exact .mk ((ih e he).1 (hm e he).1) ((ih e he).2 (hm e he).2)
  | void => exact .void
  | boolean b => exact .boolean b
  | integer i => exact .integer i
  | string t => exact .string t
  | byteblock b => exact .byteblock b
  | path p => exact .path p
  | symbol t => exact .symbol t
  | _ => exact h.elim

end YCPValue

namespace Interp

open Mirror YCPValue

variable {P P' : Program} {root : CodePtr → CodePtr → Prop}

/-! ### What is read back -/

/-- `c'` was read from the bytes of `c`, among others; `K` has the links that were made. -/
inductive Reread (E : WriterEnv) (L : ReaderEnv) (K : Links) : YCode → YCode → Prop where
  | null : Reread E L K .null .null
  | code {B : Base} {F : List Frame} {k k' : Links} {c c' d : YCode} {w rest : Bytes} {s : NamespaceStack}
      {t : Bytes × ReaderState} (hcarried : Carried E c) (hwritable : Writable E c) (hreadable : Readable E c)
      (hlinked : Linked E L F k) (hwrite : toStream E c (writerStack B F) = .ok (w, s))
      (hcopy : copy E L c k = some (d, k')) (hgrows : Grows k' K)
      (hread : readCode L (w ++ rest, readerState E L B F k.world) = .ok (c', t)) : Reread E L K c c'
  | function {declaration declaration' definition definition' : YCode}
      (hdeclaration : Reread E L K declaration declaration') (hdefinition : Reread E L K definition definition') :
      Reread E L K (.node (.ycFunction declaration definition)) (.node (.ycFunction declaration' definition'))

lemma Reread.like (hrt : RoundTrips E L) {c c' : YCode} (h : Reread E L K c c') : YCode.Like (linked E L K) c c' := by
  induction h with
  | null => exact .null
  | function _ _ ihdeclaration ihdefinition => exact .node (.ycFunction ihdeclaration ihdefinition)
  | code hcarried hwritable hreadable hlinked hwrite hcopy hgrows hread =>
    obtain ⟨F', -, -, -, hdecides⟩ := simulates_readCode hrt hwrite hcopy hlinked hwritable
    have hc := (hdecides.reads hreadable _).symm.trans hread
    cases hc
    exact (copiedLike_of_carried hcarried _ _ _ hlinked.fresh hcopy).2 hgrows

/-! ### Programs before and after -/

/-- `P` holds the written code and `P'` what was read. The roots are the code that is not part of other code:
of files, and of the functions that are called. -/
structure Rereads (E : WriterEnv) (L : ReaderEnv) (K : Links) (P P' : Program) (root : CodePtr → CodePtr → Prop) :
    Prop where
  code : ∀ {p p'}, root p p' → ∃ c c', Reread E L K c c' ∧ Placed P p c ∧ Placed P' p' c'
  root_unique : Relator.BiUnique root
  forest : P.Forest fun p => ∃ p', root p p'
  forest' : P'.Forest fun p' => ∃ p, root p p'
  entry_unique : Relator.LeftUnique fun e e' => linkEntry E L K e = some e'
  type : P.type = P'.type

namespace Rereads

lemma layout (H : Rereads E L K P P' root) (hrt : RoundTrips E L) : Layout (linked E L K) P P' root where
  tree h := by
    obtain ⟨c, c', hc, hp, hp'⟩ := H.code h
    exact ⟨c, c', hc.like hrt, hp, hp'⟩
  root_unique := H.root_unique
  forest := H.forest
  forest' := H.forest'

/-- Code that is reached together, and the symbols as they were linked. -/
def correspondence (H : Rereads E L K P P' root) (hrt : RoundTrips E L) : Correspondence :=
  (H.layout hrt).correspondence ⟨H.entry_unique, fun _ _ _ h h' => Option.some.inj (h.symm.trans h')⟩

lemma parts (H : Rereads E L K P P' root) (hrt : RoundTrips E L)
    (hbuiltin : ∀ d, Option.Rel (BuiltinLike (H.correspondence hrt)) (P.builtin d) (P'.builtin d)) :
    (linked E L K).Le (likeness (H.correspondence hrt) P P') where
  entry h := h
  value h := by
    obtain ⟨e, e', rfl, rfl, he⟩ | ⟨rfl, hconstant⟩ := h
    · exact .entry he
    · exact .refl_of_constant hconstant
  type h := by
    obtain rfl := h
    exact congrFun H.type _
  decl h := by
    obtain rfl := h
    exact hbuiltin _
  block h := by
    obtain ⟨hkind, hcount, hsymbols⟩ := h
    refine ⟨hkind, ?_⟩
    rw [Program.symbols, Program.symbols, hcount, List.forall₂_map_left_iff, List.forall₂_map_right_iff,
      List.forall₂_same]
    intro i hi
    exact hsymbols i (hcount ▸ List.mem_range.mp hi)

end Rereads

/-! ### Example

A file `{ integer a = 3; return a; }`, before and after. -/

def returnsThree (block : Nat) : YCode :=
  .node (.yeBlock ⟨block, .ofBuffer [], .b_file, 1⟩ [] ⟨⟨.block block, 0⟩, 1, []⟩
    [.node (.ysVariable 1 ⟨.block block, 0⟩ (.node (.yConst .ycInteger (.integer 3)))),
      .node (.ysReturn 2 (.node (.yeVariable ⟨.block block, 0⟩)))])

/-- Five blocks have been read before. -/
def fiveBlocks : Links := ⟨⟨5, fun _ => [], fun _ => .null⟩, fun _ => none⟩

def anyVariable : EntryRef → SymbolInfo := fun _ => ⟨.c_variable, .base .anyT unqualified, 0⟩

def atFirst : Program :=
  .ofNodes [.yeBlock ⟨0, .ofBuffer [], .b_file, 1⟩ [] ⟨⟨.block 0, 0⟩, 1, []⟩ [2, 4],
    .ysVariable 1 ⟨.block 0, 0⟩ 3, .yConst .ycInteger (.integer 3), .ysReturn 2 5, .yeVariable ⟨.block 0, 0⟩]
    anyVariable 10

def later : Program :=
  .ofNodes [.yeVariable ⟨.block 5, 0⟩, .ysReturn 2 1, .yConst .ycInteger (.integer 3),
    .ysVariable 1 ⟨.block 5, 0⟩ 3,
    .yeBlock ⟨5, .ofBuffer [], .b_file, 1⟩ [] ⟨⟨.block 5, 0⟩, 1, []⟩ [4, 2]]
    anyVariable 10

lemma placed_atFirst : Placed atFirst 1 (returnsThree 0) := by
  refine .node rfl (.yeBlock rfl (.cons (.node rfl (.ysVariable rfl ?_)) (.cons (.node rfl (.ysReturn ?_)) .nil)))
  · exact .node rfl (.yConst rfl)
  · exact .node rfl (.yeVariable rfl)

lemma placed_later : Placed later 5 (returnsThree 5) := by
  refine .node rfl (.yeBlock rfl (.cons (.node rfl (.ysVariable rfl ?_)) (.cons (.node rfl (.ysReturn ?_)) .nil)))
  · exact .node rfl (.yConst rfl)
  · exact .node rfl (.yeVariable rfl)

def linksOfThree : Links := ((copy plainWriter plainReader (returnsThree 0) fiveBlocks).map Prod.snd).getD fiveBlocks

lemma reread_returnsThree : Reread plainWriter plainReader linksOfThree (returnsThree 0) (returnsThree 5) := by
  have hwritable : Writable plainWriter (returnsThree 0) := by
    simp [Writable, returnsThree, YCode.every_node, Node.Sized, Node.Constants, CText.Fits, CText.ofBuffer, cut,
      BlockInfo.hasTable, Point.Fits, EntryFits, YCPValue.Constant]
  have hreadable : Readable plainWriter (returnsThree 0) := by
    simp [Readable, returnsThree, YCode.every_node, YCPValue.Fits, BlockInfo.hasTable]
  have hcarried : Carried plainWriter (returnsThree 0) := by
    simp [returnsThree, YCode.every_node, Node.Tableless, Node.KeepsConstants, YCPValue.carried, Node.Constants,
      YCPValue.Constant, BlockInfo.hasTable]
  have hlinked : Linked plainWriter plainReader [] fiveBlocks :=
    ⟨by simp, by simp, by simp [fiveBlocks], by simp [fiveBlocks]⟩
  have hcopy : copy plainWriter plainReader (returnsThree 0) fiveBlocks = some (returnsThree 5, linksOfThree) := rfl
  obtain ⟨w, s, hwrite⟩ : ∃ w s, toStream plainWriter (returnsThree 0) (writerStack ⟨[], [], fun _ => []⟩ []) =
      .ok (w, s) := ⟨_, _, rfl⟩
  obtain ⟨F', -, -, -, hdecides⟩ := simulates_readCode roundTrips_plain hwrite hcopy hlinked hwritable
  have hgrows := (copiedLike_of_carried (K := linksOfThree) hcarried _ _ _ hlinked.fresh hcopy).1
  exact .code hcarried hwritable hreadable hlinked hwrite hcopy (.refl hgrows.made) (hdecides.reads hreadable [])

lemma rereads_returnsThree :
    Rereads plainWriter plainReader linksOfThree atFirst later fun p p' => p = 1 ∧ p' = 5 where
  code h := by
    obtain ⟨rfl, rfl⟩ := h
    exact ⟨_, _, reread_returnsThree, placed_atFirst, placed_later⟩
  root_unique := ⟨fun _ _ _ h h' => h.1.trans h'.1.symm, fun _ _ _ h h' => h.2.trans h'.2.symm⟩
  forest := by
    refine Program.forest_ofNodes (by decide) (by decide) fun p hp => ?_
    obtain ⟨p', rfl, -⟩ := hp
    decide
  forest' := by
    refine Program.forest_ofNodes (by decide) (by decide) fun p' hp => ?_
    obtain ⟨p, -, rfl⟩ := hp
    decide
  entry_unique := by
    have hentry {e e' : EntryRef} (h : linkEntry plainWriter plainReader linksOfThree e = some e') :
        e = ⟨.block 0, e'.position⟩ := by
      obtain ⟨ns, p⟩ := e
      cases ns with
      | module m => simp [linkEntry, plainWriter] at h
      | block b =>
        have hblock : linksOfThree.block = Function.update (fun _ => none) 0 (some 5) := rfl
        simp only [linkEntry, linkLocal, hblock, Function.update_apply] at h
        split at h
        · next hb =>
          split at hb
          · next h0 =>
            cases (Option.ite_none_right_eq_some.mp h).2
            rw [h0]
          · cases hb
        · cases h
    exact fun _ _ _ h h' => (hentry h).trans (hentry h').symm
  type := rfl

end Interp

end YastCore
