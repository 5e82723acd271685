import YastCore.Code.Copy

/-!
# The namespace stacks of the writer and the reader

The two stacks move in step: a frame of one always belongs to
the block or module whose copy the same frame of the other belongs to. So every reference is read as
the copy of what was written, and the tree that is read is the copy of the tree.
-/

namespace YastCore

namespace Bytecode

open Codec

/-! ### Frames -/

/-- What stands at one level of both stacks: a block and its copy, or a module. -/
inductive Frame where
  | block (id copy : Nat)
  | module (name : Text)
deriving DecidableEq

namespace Frame

def writer : Frame → NamespaceEntry
  | block id _ => ⟨.block id, false⟩
  | module name => ⟨.module name, false⟩

def reader : Frame → NamespaceEntry
  | block _ copy => ⟨.block copy, false⟩
  | module name => ⟨.module name, true⟩

end Frame

/-- The namespaces of both sides as they are when the tree is begun: the stacks, and the references
that are open in the tables of the modules. -/
structure Base where
  writer : List NamespaceEntry
  reader : List NamespaceEntry
  xrefs : NsId → List (List Nat)

section Frames

variable (E : WriterEnv) (L : ReaderEnv) (B : Base)

def writerStack (F : List Frame) : NamespaceStack :=
  ⟨B.writer ++ F.map Frame.writer, B.writer.length⟩

/-- The references that an import opens. -/
def xrefVector (m : Text) : List Nat :=
  (E.usage m).map fun p => (provided E L m p).getD 0

def xrefsOf (F : List Frame) : NsId → List (List Nat)
  | .block b => B.xrefs (.block b)
  | .module m => List.replicate (F.count (.module m)) (xrefVector E L m) ++ B.xrefs (.module m)

def readerState (F : List Frame) (w : World) : ReaderState :=
  ⟨⟨B.reader ++ F.map Frame.reader, B.reader.length⟩, xrefsOf E L B F, w⟩

/-- The frames and the links belong together. -/
structure Linked (F : List Frame) (k : Links) : Prop where
  blocks : ∀ b b', Frame.block b b' ∈ F → k.block b = some b'
  modules : ∀ m, Frame.module m ∈ F → ∀ p ∈ E.usage m, (provided E L m p).isSome
  fresh : ∀ b b', k.block b = some b' → b' < k.world.next
  symbols : ∀ b b', k.block b = some b' → ∀ i s, (k.world.symbols b')[i]? = some s →
    s = E.symbol ⟨.block b, i⟩

end Frames

variable {E : WriterEnv} {L : ReaderEnv} {B : Base} {F : List Frame} {k k' : Links}

lemma above_writerStack (F : List Frame) : (writerStack B F).above = F.map Frame.writer := by
  simp [NamespaceStack.above, writerStack]

lemma above_readerState (w : World) :
    (readerState E L B F w).stack.above = F.map Frame.reader := by
  simp [NamespaceStack.above, readerState]

/-- The frame that an id stands for. -/
lemma namespaceId_writerStack {ns : NsId} {id : Nat}
    (h : (writerStack B F).namespaceId ns = some id) :
    id < 2 ^ 31 ∧ ∃ f, F[id]? = some f ∧ f.writer.name_space = ns := by
  rw [NamespaceStack.namespaceId, above_writerStack, Option.filter_eq_some_iff] at h
  obtain ⟨hfind, hlt⟩ := h
  refine ⟨by simpa using hlt, ?_⟩
  obtain ⟨hlen, hns, -⟩ := List.findIdx?_eq_some_iff_getElem.mp hfind
  rw [List.length_map] at hlen
  refine ⟨F[id], List.getElem?_eq_getElem hlen, ?_⟩
  simpa using hns

lemma namespacePtr_readerState {w : World} {id : Nat} {f : Frame} (h : F[id]? = some f) :
    (readerState E L B F w).stack.namespacePtr id = some f.reader.name_space := by
  rw [NamespaceStack.namespacePtr, above_readerState, List.getElem?_map, h]
  rfl

/-- A module on the stack has its references open. -/
lemma getXRef_readerState {w : World} {m : Text} (h : Frame.module m ∈ F) (i : Nat) :
    (readerState E L B F w).getXRef (.module m) i =
      (xrefVector E L m)[i]?.map fun p => ⟨.module m, p⟩ := by
  have hcount : 0 < F.count (.module m) := List.count_pos_iff.mpr h
  obtain ⟨n, hn⟩ := Nat.exists_eq_add_of_lt hcount
  simp only [ReaderState.getXRef, readerState, xrefsOf, hn, Nat.zero_add, List.replicate_succ,
    List.cons_append, List.head?_cons, Option.bind_some]

/-! ### Entries -/

/-- The position of a symbol of a block is not taken for a reference to a module. -/
def EntryFits (e : EntryRef) : Prop :=
  match e.ns with
  | .block _ => e.position < 2 ^ 31
  | .module _ => True

lemma reads_entry_local {e e' : EntryRef} {id b : Nat} {f : Frame} (hk : Linked E L F k)
    (hlink : linkLocal k e = some e') (hns : e.ns = .block b) (hid : id < 2 ^ 31)
    (hf : F[id]? = some f) (hfns : f.writer.name_space = e.ns) (hfits : e.position < 2 ^ 31) :
    Reads (readEntry L) (readerState E L B F k.world) (writeInt32 id ++ writeInt32 e.position)
      (some e') (readerState E L B F k.world) := by
  obtain ⟨b', rfl⟩ : ∃ b', f = .block b b' := by
    cases f with
    | block c b' => exact ⟨b', by simp_all [Frame.writer]⟩
    | module m => simp [Frame.writer, hns] at hfns
  have hb := hk.blocks b b' (List.mem_of_getElem? hf)
  simp only [linkLocal, hns, hb] at hlink
  split at hlink
  next hpos =>
    obtain rfl := Option.some.inj hlink
    refine (reads_writeInt32 (by omega) _).bind ?_
    refine (reads_writeInt32 (by omega) _).bind_nil ?_
    refine (reads_getState _).bind_nil ?_
    rw [if_neg (by omega)]
    simp only [namespacePtr_readerState hf]
    rw [if_neg (by omega)]
    have hsymbol : e.position < (symbolsIn L (readerState E L B F k.world).world
        (Frame.block b b').reader.name_space).length := hpos
    rw [if_pos hsymbol]
    exact Reads.pure _ _
  next => cases hlink

lemma reads_entry_module {m : Text} {p id i : Nat} {f : Frame} (hp : p ∈ E.usage m)
    (hq : provided E L m p = some i) (hid : id < 2 ^ 31) (hf : F[id]? = some f)
    (hfns : f.writer.name_space = .module m) (w : World) :
    Reads (readEntry L) (readerState E L B F w)
      (writeInt32 id ++ writeInt32 (position E ⟨.module m, p⟩)) (some ⟨.module m, i⟩)
      (readerState E L B F w) := by
  obtain rfl : f = .module m := by
    cases f with
    | block c b' => simp [Frame.writer] at hfns
    | module m' => simp_all [Frame.writer]
  obtain ⟨j, hj⟩ : ∃ j, (E.usage m).idxOf? p = some j := by
    rw [← Option.isSome_iff_exists, List.isSome_idxOf?]
    exact hp
  have hget : (E.usage m)[j]? = some p := by
    obtain ⟨hlt, heq, -⟩ := List.idxOf?_eq_some_iff.mp hj
    rw [List.getElem?_eq_getElem hlt, heq]
  have hjlt : j < 2 ^ 31 := by
    have := (List.getElem?_eq_some_iff.mp hget).1
    have := E.usage_length_lt m
    omega
  have hposition : position E ⟨.module m, p⟩ = 2 ^ 32 - 1 - j := by
    simp only [position, hj]
    omega
  rw [hposition]
  refine (reads_writeInt32 (by omega) _).bind ?_
  refine (reads_writeInt32 (by omega) _).bind_nil ?_
  refine (reads_getState _).bind_nil ?_
  rw [if_neg (by omega)]
  simp only [namespacePtr_readerState hf]
  rw [if_pos (by omega)]
  simp only [Frame.reader]
  rw [getXRef_readerState (List.mem_of_getElem? hf), xrefVector, List.getElem?_map,
    show 2 ^ 32 - 1 - (2 ^ 32 - 1 - j) = j by omega, hget]
  simp only [Option.map_some, hq, Option.getD_some]
  exact Reads.pure _ _

/-- What `readEntry` finds for the bytes of `writeEntry` is the copy of the symbol written. -/
lemma reads_writeEntry {e e' : EntryRef} {w : Bytes} {s : NamespaceStack} (hk : Linked E L F k)
    (hw : writeEntry E e (writerStack B F) = .ok (w, s)) (hlink : linkEntry E L k e = some e')
    (hfits : EntryFits e) :
    s = writerStack B F ∧
      Reads (readEntry L) (readerState E L B F k.world) w (some e') (readerState E L B F k.world) := by
  rw [writeEntry, Exec.bind_of_ok (Exec.get_apply _)] at hw
  cases hid : (writerStack B F).namespaceId e.ns with
  | none => simp [hid] at hw
  | some id =>
    simp only [hid, Exec.pure_apply, Except.ok.injEq, Prod.mk.injEq] at hw
    obtain ⟨rfl, rfl⟩ := hw
    obtain ⟨hlt, f, hf, hfns⟩ := namespaceId_writerStack hid
    refine ⟨rfl, ?_⟩
    obtain ⟨ns, p⟩ := e
    cases ns with
    | block b => exact reads_entry_local hk hlink rfl hlt hf hfns hfits
    | module m =>
      simp only [linkEntry] at hlink
      split at hlink
      next hp =>
        obtain ⟨i, hi, rfl⟩ := Option.map_eq_some_iff.mp hlink
        exact reads_entry_module hp hi hlt hf hfns k.world
      next => cases hlink

/-! ### Pushing and popping -/

section Popping

variable {base outer inner : List NamespaceEntry} {e : NamespaceEntry} {ns : NsId}

lemma popped_last (hns : e.name_space = ns) :
    NamespaceStack.popped ⟨base ++ (outer ++ [e]), base.length⟩ ns = [e] := by
  simp [NamespaceStack.popped, NamespaceStack.above, hns]

lemma popped_other (hns : e.name_space ≠ ns) :
    NamespaceStack.popped ⟨base ++ (outer ++ [e]), base.length⟩ ns = [] := by
  simp [NamespaceStack.popped, NamespaceStack.above, hns]

lemma poppedUpto_last (hns : e.name_space = ns) (hinner : ∀ e' ∈ inner, e'.name_space ≠ ns) :
    NamespaceStack.poppedUpto ⟨base ++ (outer ++ e :: inner), base.length⟩ ns =
      (e :: inner).reverse := by
  have hover : (inner.reverse ++ e :: outer.reverse).takeWhile (fun e => e.name_space ≠ ns) =
      inner.reverse := by
    rw [List.takeWhile_append_of_pos (by simpa using hinner)]
    simp [hns]
  simp only [NamespaceStack.poppedUpto, NamespaceStack.above, List.drop_left', List.reverse_append,
    List.reverse_cons, List.append_assoc, List.singleton_append, hover, List.length_reverse]
  have htake : List.take (inner.length + 1) inner.reverse = inner.reverse :=
    List.take_of_length_le (by simp)
  simp [List.take_append, htake]

lemma dropTop_last :
    NamespaceStack.dropTop ⟨base ++ (outer ++ inner), base.length⟩ inner.length =
      ⟨base ++ outer, base.length⟩ := by
  have hlen : (base ++ (outer ++ inner)).length - inner.length = (base ++ outer).length := by
    simp only [List.length_append]
    omega
  rw [NamespaceStack.dropTop, ← List.append_assoc, List.append_assoc, hlen, ← List.append_assoc,
    List.take_left' rfl]

lemma popNamespace_last (hns : e.name_space = ns) :
    NamespaceStack.popNamespace ⟨base ++ (outer ++ [e]), base.length⟩ ns =
      ⟨base ++ outer, base.length⟩ := by
  rw [NamespaceStack.popNamespace, popped_last hns]
  exact dropTop_last

/-- Another namespace at the top stays there. -/
lemma popNamespace_other (hns : e.name_space ≠ ns) :
    NamespaceStack.popNamespace ⟨base ++ (outer ++ [e]), base.length⟩ ns =
      ⟨base ++ (outer ++ [e]), base.length⟩ := by
  rw [NamespaceStack.popNamespace, popped_other hns, NamespaceStack.dropTop, List.length_nil,
    Nat.sub_zero, List.take_length]

lemma popUptoNamespace_last (hns : e.name_space = ns) (hinner : ∀ e' ∈ inner, e'.name_space ≠ ns) :
    NamespaceStack.popUptoNamespace ⟨base ++ (outer ++ e :: inner), base.length⟩ ns =
      ⟨base ++ outer, base.length⟩ := by
  rw [NamespaceStack.popUptoNamespace, poppedUpto_last hns hinner, List.length_reverse]
  exact dropTop_last

end Popping

lemma writerStack_push (F : List Frame) (f : Frame) :
    (writerStack B F).pushNamespace f.writer.name_space false = writerStack B (F ++ [f]) := by
  cases f <;> simp [writerStack, NamespaceStack.pushNamespace, Frame.writer]

lemma writerStack_pop (F : List Frame) (f : Frame) :
    (writerStack B (F ++ [f])).popNamespace f.writer.name_space = writerStack B F := by
  rw [writerStack, List.map_append]
  exact popNamespace_last rfl

lemma writerStack_pop_other (F : List Frame) {f : Frame} {b : Nat}
    (h : f.writer.name_space ≠ .block b) :
    (writerStack B (F ++ [f])).popNamespace (.block b) = writerStack B (F ++ [f]) := by
  rw [writerStack, List.map_append]
  exact popNamespace_other h

/-- What was pushed while a block is open may be left above it. -/
lemma writerStack_popUpto (F : List Frame) {b : Nat} (b' : Nat) {G : List Frame}
    (h : ∀ f ∈ G, f.writer.name_space ≠ .block b) :
    (writerStack B (F ++ .block b b' :: G)).popUptoNamespace (.block b) = writerStack B F := by
  rw [writerStack, List.map_append, List.map_cons]
  exact popUptoNamespace_last rfl (List.forall_mem_map.mpr h)

lemma xrefsOf_append_block (F : List Frame) (b b' : Nat) :
    xrefsOf E L B (F ++ [Frame.block b b']) = xrefsOf E L B F := by
  funext ns
  cases ns <;> simp [xrefsOf, List.count_append]

lemma xrefsOf_append_module (F : List Frame) (m : Text) :
    xrefsOf E L B (F ++ [Frame.module m]) =
      Function.update (xrefsOf E L B F) (.module m)
        (xrefVector E L m :: xrefsOf E L B F (.module m)) := by
  funext ns
  by_cases hns : ns = .module m
  · subst hns
    simp [xrefsOf, List.count_append, List.replicate_succ]
  · rw [Function.update_of_ne hns]
    cases ns with
    | block b => rfl
    | module m' =>
      have hne : m ≠ m' := fun h => hns (by rw [h])
      simp [xrefsOf, List.count_append, hne]

lemma closeXRefs_append (F : List Frame) (f : Frame) :
    ReaderState.closeXRefs (xrefsOf E L B (F ++ [f])) f.reader = xrefsOf E L B F := by
  cases f with
  | block b b' =>
    rw [xrefsOf_append_block]
    rfl
  | module m =>
    have hclose : ReaderState.closeXRefs (xrefsOf E L B (F ++ [Frame.module m])) (Frame.module m).reader =
        Function.update (xrefsOf E L B (F ++ [Frame.module m])) (.module m)
          (xrefsOf E L B (F ++ [Frame.module m]) (.module m)).tail := rfl
    rw [hclose, xrefsOf_append_module, Function.update_self, List.tail_cons, Function.update_idem,
      Function.update_eq_self]

lemma foldl_closeXRefs (F G : List Frame) :
    (G.map Frame.reader).reverse.foldl ReaderState.closeXRefs (xrefsOf E L B (F ++ G)) =
      xrefsOf E L B F := by
  induction G generalizing F with
  | nil => simp
  | cons f G ih =>
    rw [List.map_cons, List.reverse_cons, List.foldl_append, List.append_cons F f G, ih]
    exact closeXRefs_append F f

lemma readerState_push (F : List Frame) (b b' : Nat) (w : World) :
    (readerState E L B F w).pushNamespace (.block b') false =
      readerState E L B (F ++ [Frame.block b b']) w := by
  simp [readerState, ReaderState.pushNamespace, NamespaceStack.pushNamespace, Frame.reader,
    xrefsOf_append_block]

lemma readerState_pop (F : List Frame) (b b' : Nat) (w : World) :
    (readerState E L B (F ++ [Frame.block b b']) w).popNamespace (.block b') = readerState E L B F w := by
  have hclose := foldl_closeXRefs (E := E) (L := L) (B := B) F [.block b b']
  simp only [readerState, ReaderState.popNamespace, List.map_append, List.map_cons, List.map_nil] at hclose ⊢
  have hns : (Frame.block b b').reader.name_space = .block b' := rfl
  rw [popNamespace_last hns, popped_last hns]
  exact congrArg (fun x => (⟨_, x, w⟩ : ReaderState)) hclose

lemma readerState_pop_other (F : List Frame) {f : Frame} {b' : Nat} (w : World)
    (h : f.reader.name_space ≠ .block b') :
    (readerState E L B (F ++ [f]) w).popNamespace (.block b') = readerState E L B (F ++ [f]) w := by
  simp only [readerState, ReaderState.popNamespace, List.map_append, List.map_cons, List.map_nil]
  rw [popNamespace_other h, popped_other h]
  rfl

lemma readerState_popUpto (F : List Frame) (b : Nat) {b' : Nat} {G : List Frame} (w : World)
    (h : ∀ f ∈ G, f.reader.name_space ≠ .block b') :
    (readerState E L B (F ++ .block b b' :: G) w).popUptoNamespace (.block b') =
      readerState E L B F w := by
  have hclose := foldl_closeXRefs (E := E) (L := L) (B := B) F (.block b b' :: G)
  have hinner : ∀ e ∈ G.map Frame.reader, e.name_space ≠ .block b' := List.forall_mem_map.mpr h
  simp only [readerState, ReaderState.popUptoNamespace, List.map_append, List.map_cons] at hclose ⊢
  have hns : (Frame.block b b').reader.name_space = .block b' := rfl
  rw [popUptoNamespace_last hns hinner, poppedUpto_last hns hinner]
  exact congrArg (fun x => (⟨_, x, w⟩ : ReaderState)) hclose

end Bytecode

end YastCore
