import YastCore.Code.Bytecode

/-!
# The namespace stack of the loader

What `Bytecode::readModule` and the constructors that read from a file do to the namespace stack, also
where an exception leaves them. A file is given by what the reader meets in it.
-/

namespace YastCore.Bytecode

/-! ### Files -/

mutual

/-- What the reader meets in a file. -/
inductive Item where
  /-- `Bytecode::Invalid` is thrown here, or the stream ends. -/
  | invalid
  /-- Code that only has its parts read. -/
  | plain (parts : List Item)
  /-- `YBlock` -/
  | block (id : Nat) (parts : List Item)
  /-- What a `YFunction` reads under its declaration, and a `YEBuiltin` under its parameters. -/
  | under (name_space : NsId) (parts : List Item)
  /-- `YSImport`, with the references that are resolved after the module is loaded. -/
  | imports (name : Text) (load : Module) (xrefs : List Item)

/-- What is found for the name of a module. -/
inductive Module where
  /-- It needs no bytecode: it has been imported before, or another component has it. -/
  | active
  /-- `findModule` finds no file. -/
  | missing
  | cached
  /-- The file cannot be opened, or has another version. -/
  | unreadable
  /-- The code in the file, and whether it is a module. -/
  | file (top : Item) (isModule : Bool)

end

/-! ### Reading -/

mutual

/-- What reading leaves of the stack, and whether it comes to its end. -/
def readItem : Item → NamespaceStack → NamespaceStack × Bool
  | .invalid, s => (s, false)
  | .plain parts, s => readItems parts s
  | .block id parts, s =>
    let r := readItems parts (s.pushNamespace (.block id) false)
    if r.2 then (r.1.popUptoNamespace (.block id), true) else r
  | .under name_space parts, s =>
    let r := readItems parts (s.pushNamespace name_space false)
    if r.2 then (r.1.popNamespace name_space, true) else r
  | .imports name load xrefs, s =>
    let r := loadModule load s
    if r.2 then readItems xrefs (r.1.pushNamespace (.module name) true) else r

def readItems : List Item → NamespaceStack → NamespaceStack × Bool
  | [], s => (s, true)
  | x :: rest, s =>
    let r := readItem x s
    if r.2 then readItems rest r.1 else r

/-- `readModule`, and whether it returns a block. -/
def loadModule : Module → NamespaceStack → NamespaceStack × Bool
  | .active, s => (s, true)
  | .missing, s => (s, false)
  | .cached, s => (s, true)
  | .unreadable, s => (s.tareStack.2, false)
  | .file top isModule, s =>
    let r := readItem top s.tareStack.2
    if r.2 then (r.1.untareStack s.tareStack.1, isModule) else (r.1, false)

end

/-! ### What reading keeps -/

section

variable {s r t : NamespaceStack}

/-- The tare level is a level of the stack. -/
def Valid (s : NamespaceStack) : Prop := s.tare ≤ s.nesting.length

/-- What was on the stack is still there, and the tare level is not lower. -/
structure Grown (s r : NamespaceStack) : Prop where
  nesting : s.nesting <+: r.nesting
  tare : s.tare ≤ r.tare
  valid : Valid r

/-- The outcome of reading: the stack has grown, and the tare level is the same at the end of the file. -/
structure Kept (s : NamespaceStack) (r : NamespaceStack × Bool) : Prop where
  grown : Grown s r.1
  tare : r.2 = true → r.1.tare = s.tare

lemma Grown.refl (h : Valid s) : Grown s s := ⟨List.prefix_refl _, le_refl _, h⟩

lemma Grown.trans (h : Grown s r) (h' : Grown r t) : Grown s t :=
  ⟨h.nesting.trans h'.nesting, h.tare.trans h'.tare, h'.valid⟩

lemma Kept.refl (h : Valid s) (ok : Bool) : Kept s (s, ok) := ⟨.refl h, fun _ => rfl⟩

lemma grown_push (h : Valid s) (ns : NsId) (with_xrefs : Bool) : Grown s (s.pushNamespace ns with_xrefs) := by
  refine ⟨List.prefix_append _ _, le_refl _, ?_⟩
  unfold Valid at *
  simp only [NamespaceStack.pushNamespace, List.length_append, List.length_singleton]
  omega

lemma grown_dropTop {n : Nat} (hgrown : Grown s r) (hn : s.nesting.length + n ≤ r.nesting.length)
    (htare : r.tare = s.tare) (h : Valid s) : Grown s (r.dropTop n) := by
  have hlength : (r.dropTop n).nesting.length = r.nesting.length - n := by
    simp only [NamespaceStack.dropTop, List.length_take]
    omega
  refine ⟨?_, hgrown.tare, ?_⟩
  · exact List.prefix_of_prefix_length_le hgrown.nesting (List.take_prefix _ _) (by omega)
  · unfold Valid at *
    rw [hlength]
    show r.tare ≤ _
    omega

/-- `popUptoNamespace` stops at the latest at the entry that was pushed. -/
lemma length_poppedUpto {ns : NsId} {with_xrefs : Bool} (hgrown : Grown (s.pushNamespace ns with_xrefs) r)
    (htare : r.tare = s.tare) (h : Valid s) :
    s.nesting.length + (r.poppedUpto ns).length ≤ r.nesting.length := by
  obtain ⟨extra, hextra⟩ := hgrown.nesting
  have habove : r.above.reverse = extra.reverse ++ ⟨ns, with_xrefs⟩ :: s.above.reverse := by
    rw [NamespaceStack.above, htare, ← hextra, NamespaceStack.pushNamespace]
    dsimp only
    rw [List.append_assoc, List.drop_append_of_le_length h]
    simp [NamespaceStack.above]
  have htake : (r.above.reverse.takeWhile fun e => e.name_space ≠ ns).length ≤ extra.length := by
    rw [habove, List.takeWhile_append, List.takeWhile_cons_of_neg (by simp)]
    split_ifs
    · simp
    · exact (List.takeWhile_prefix _).length_le.trans (by simp)
  rw [← hextra]
  simp only [NamespaceStack.poppedUpto, NamespaceStack.pushNamespace, List.length_take, List.length_append,
    List.length_singleton]
  omega

lemma length_popped (ns : NsId) : (r.popped ns).length ≤ 1 := by
  unfold NamespaceStack.popped
  split
  · split_ifs <;> simp
  · simp

lemma tare_untareStack (h : Valid s) (htare : r.tare = s.nesting.length) :
    (r.untareStack s.tareStack.1).tare = s.tare := by
  unfold Valid at h
  simp only [NamespaceStack.untareStack, NamespaceStack.tareStack]
  omega

lemma grown_tareStack (h : Valid s) : Grown s s.tareStack.2 := ⟨List.prefix_refl _, h, le_refl _⟩

end

mutual

theorem kept_readItem : ∀ (x : Item) {s : NamespaceStack}, Valid s → Kept s (readItem x s)
  | .invalid, s, h => .refl h false
  | .plain parts, s, h => kept_readItems parts h
  | .block id parts, s, h => by
    have hpush := grown_push h (.block id) false
    have hparts := kept_readItems parts hpush.valid
    rw [readItem]
    split_ifs with hok
    · have htare : _ = s.tare := hparts.tare hok
      exact ⟨grown_dropTop (hpush.trans hparts.grown) (length_poppedUpto hparts.grown htare h) htare h,
        fun _ => htare⟩
    · exact ⟨hpush.trans hparts.grown, fun hr => absurd hr hok⟩
  | .under name_space parts, s, h => by
    have hpush := grown_push h name_space false
    have hparts := kept_readItems parts hpush.valid
    rw [readItem]
    split_ifs with hok
    · have htare : _ = s.tare := hparts.tare hok
      have hlength := hparts.grown.nesting.length_le
      have hpopped := length_popped (r := (readItems parts (s.pushNamespace name_space false)).1) name_space
      simp only [NamespaceStack.pushNamespace, List.length_append, List.length_singleton] at hlength
      exact ⟨grown_dropTop (hpush.trans hparts.grown) (by
        simp only [NamespaceStack.pushNamespace] at hpopped ⊢
        omega) htare h, fun _ => htare⟩
    · exact ⟨hpush.trans hparts.grown, fun hr => absurd hr hok⟩
  | .imports name load xrefs, s, h => by
    have hload := kept_loadModule load h
    rw [readItem]
    split_ifs with hok
    · have hpush := grown_push hload.grown.valid (.module name) true
      have hxrefs := kept_readItems xrefs hpush.valid
      exact ⟨hload.grown.trans (hpush.trans hxrefs.grown), fun hr => (hxrefs.tare hr).trans (hload.tare hok)⟩
    · exact hload

theorem kept_readItems : ∀ (l : List Item) {s : NamespaceStack}, Valid s → Kept s (readItems l s)
  | [], s, h => .refl h true
  | x :: rest, s, h => by
    have hx := kept_readItem x h
    rw [readItems]
    split_ifs with hok
    · have hrest := kept_readItems rest hx.grown.valid
      exact ⟨hx.grown.trans hrest.grown, fun hr => (hrest.tare hr).trans (hx.tare hok)⟩
    · exact hx

theorem kept_loadModule : ∀ (m : Module) {s : NamespaceStack}, Valid s → Kept s (loadModule m s)
  | .active, s, h => .refl h true
  | .missing, s, h => .refl h false
  | .cached, s, h => .refl h true
  | .unreadable, s, h => ⟨grown_tareStack h, fun hr => Bool.noConfusion hr⟩
  | .file top isModule, s, h => by
    have hstart := grown_tareStack h
    have htop := kept_readItem top hstart.valid
    rw [loadModule]
    split_ifs with hok
    · have htare := htop.tare hok
      have huntared := tare_untareStack h htare
      refine ⟨⟨htop.grown.nesting, huntared.ge, ?_⟩, fun _ => huntared⟩
      show (NamespaceStack.untareStack _ _).tare ≤ _
      rw [huntared]
      exact h.trans htop.grown.nesting.length_le
    · exact ⟨hstart.trans htop.grown, fun hr => Bool.noConfusion hr⟩

end

/-! ### Reading on top of a stack -/

section

variable {s r : NamespaceStack}

/-- The stack over a deeper one. -/
def onTop (base : List NamespaceEntry) (s : NamespaceStack) : NamespaceStack :=
  ⟨base ++ s.nesting, base.length + s.tare⟩

lemma onTop_push (base : List NamespaceEntry) (s : NamespaceStack) (ns : NsId) (with_xrefs : Bool) :
    (onTop base s).pushNamespace ns with_xrefs = onTop base (s.pushNamespace ns with_xrefs) := by
  simp [onTop, NamespaceStack.pushNamespace]

lemma onTop_above (base : List NamespaceEntry) (s : NamespaceStack) : (onTop base s).above = s.above := by
  simp [onTop, NamespaceStack.above]

lemma onTop_dropTop (base : List NamespaceEntry) {n : Nat} (h : n ≤ s.nesting.length) :
    (onTop base s).dropTop n = onTop base (s.dropTop n) := by
  have hlength : base.length + s.nesting.length - n = base.length + (s.nesting.length - n) := by omega
  have hbase : List.take (base.length + (s.nesting.length - n)) base = base :=
    List.take_of_length_le (Nat.le_add_right _ _)
  simp [onTop, NamespaceStack.dropTop, hlength, List.take_append, hbase]

lemma onTop_popUpto (base : List NamespaceEntry) (s : NamespaceStack) (ns : NsId) :
    (onTop base s).popUptoNamespace ns = onTop base (s.popUptoNamespace ns) := by
  have hpopped : (onTop base s).poppedUpto ns = s.poppedUpto ns := by
    simp only [NamespaceStack.poppedUpto, onTop_above]
  rw [NamespaceStack.popUptoNamespace, hpopped, onTop_dropTop]
  · rfl
  · simp only [NamespaceStack.poppedUpto, List.length_take, List.length_reverse, NamespaceStack.above,
      List.length_drop]
    omega

lemma onTop_pop (base : List NamespaceEntry) (s : NamespaceStack) (ns : NsId) :
    (onTop base s).popNamespace ns = onTop base (s.popNamespace ns) := by
  have hpopped : (onTop base s).popped ns = s.popped ns := by
    simp only [NamespaceStack.popped, onTop_above]
  rw [NamespaceStack.popNamespace, hpopped, onTop_dropTop]
  · rfl
  · have habove : s.above.length ≤ s.nesting.length := by
      rw [NamespaceStack.above, List.length_drop]
      omega
    unfold NamespaceStack.popped
    split
    next e he =>
      have hpos : 0 < s.above.length := List.length_pos_of_mem (List.mem_of_getLast? he)
      split_ifs
      · exact le_trans hpos habove
      · exact Nat.zero_le _
    next => exact Nat.zero_le _

lemma onTop_tareStack (base : List NamespaceEntry) (s : NamespaceStack) :
    (onTop base s).tareStack = (s.tareStack.1, onTop base s.tareStack.2) := by
  simp [onTop, NamespaceStack.tareStack, Nat.add_sub_add_left]

lemma onTop_untareStack (base : List NamespaceEntry) {n : Nat} (h : n ≤ s.tare) :
    (onTop base s).untareStack n = onTop base (s.untareStack n) := by
  have htare : base.length + s.tare - n = base.length + (s.tare - n) := by omega
  simp [onTop, NamespaceStack.untareStack, htare]

end

/-- The outcome of reading over a deeper stack. -/
def outcomeOnTop (base : List NamespaceEntry) (r : NamespaceStack × Bool) : NamespaceStack × Bool :=
  (onTop base r.1, r.2)

mutual

theorem onTop_readItem (base : List NamespaceEntry) : ∀ (x : Item) {s : NamespaceStack}, Valid s →
    readItem x (onTop base s) = outcomeOnTop base (readItem x s)
  | .invalid, s, h => rfl
  | .plain parts, s, h => onTop_readItems base parts h
  | .block id parts, s, h => by
    have hpush := grown_push h (.block id) false
    rw [readItem, readItem, onTop_push, onTop_readItems base parts hpush.valid]
    simp only [outcomeOnTop, onTop_popUpto]
    split_ifs <;> rfl
  | .under name_space parts, s, h => by
    have hpush := grown_push h name_space false
    rw [readItem, readItem, onTop_push, onTop_readItems base parts hpush.valid]
    simp only [outcomeOnTop, onTop_pop]
    split_ifs <;> rfl
  | .imports name load xrefs, s, h => by
    have hload := kept_loadModule load h
    have hpush := grown_push hload.grown.valid (.module name) true
    rw [readItem, readItem, onTop_loadModule base load h]
    simp only [outcomeOnTop, onTop_push]
    rw [onTop_readItems base xrefs hpush.valid]
    split_ifs <;> rfl

theorem onTop_readItems (base : List NamespaceEntry) : ∀ (l : List Item) {s : NamespaceStack}, Valid s →
    readItems l (onTop base s) = outcomeOnTop base (readItems l s)
  | [], s, h => rfl
  | x :: rest, s, h => by
    have hx := kept_readItem x h
    rw [readItems, readItems, onTop_readItem base x h]
    by_cases hok : (readItem x s).2 = true
    · rw [if_pos hok, ← onTop_readItems base rest hx.grown.valid]
      exact if_pos hok
    · rw [if_neg hok]
      exact if_neg hok

theorem onTop_loadModule (base : List NamespaceEntry) : ∀ (m : Module) {s : NamespaceStack}, Valid s →
    loadModule m (onTop base s) = outcomeOnTop base (loadModule m s)
  | .active, s, h => rfl
  | .missing, s, h => rfl
  | .cached, s, h => rfl
  | .unreadable, s, h => by
    rw [loadModule, onTop_tareStack]
    rfl
  | .file top isModule, s, h => by
    have hstart := grown_tareStack h
    have htop := kept_readItem top hstart.valid
    rw [loadModule, loadModule, onTop_tareStack]
    rw [onTop_readItem base top hstart.valid]
    by_cases hok : (readItem top s.tareStack.2).2 = true
    · have htare : s.tareStack.1 ≤ (readItem top s.tareStack.2).1.tare := by
        rw [htop.tare hok]
        exact Nat.sub_le _ _
      rw [if_pos hok]
      exact (if_pos hok).trans (Prod.ext (onTop_untareStack base htare) rfl)
    · rw [if_neg hok]
      exact if_neg hok

end

/-! ### The state after a module -/

/-- The namespaces that reading a file leaves on the stack. -/
def leftover (top : Item) : List NamespaceEntry := (readItem top ⟨[], 0⟩).1.nesting

/-- The file can be read to its end. -/
def ReadsToEnd (top : Item) : Prop := (readItem top ⟨[], 0⟩).2 = true

/-- When the state of the loader is restored. -/
def Module.Restores (s : NamespaceStack) : Module → Prop
  | .active | .missing | .cached => True
  | .unreadable => s.above = []
  | .file top _ => leftover top = [] ∧ (ReadsToEnd top ∨ s.above = [])

lemma above_eq_nil {s : NamespaceStack} (h : Valid s) : s.above = [] ↔ s.nesting.length = s.tare := by
  rw [NamespaceStack.above, List.drop_eq_nil_iff]
  exact ⟨fun hle => le_antisymm hle h, fun heq => heq.le⟩

lemma tareStack_eq_onTop (s : NamespaceStack) : s.tareStack.2 = onTop s.nesting ⟨[], 0⟩ := by
  simp [onTop, NamespaceStack.tareStack]

/-- A block takes off what was pushed in it, unless it was pushed again itself. -/
lemma leftover_block {id : Nat} {parts : List Item} {extra : List NamespaceEntry}
    (hread : readItems parts ⟨[⟨.block id, false⟩], 0⟩ = (⟨⟨.block id, false⟩ :: extra, 0⟩, true))
    (hid : ∀ e ∈ extra, e.name_space ≠ .block id) : leftover (.block id parts) = [] := by
  have hinner : ((extra.reverse ++ [NamespaceEntry.mk (.block id) false]).takeWhile
      fun e => e.name_space ≠ NsId.block id) = extra.reverse := by
    rw [List.takeWhile_append_of_pos, List.takeWhile_cons_of_neg (by simp), List.append_nil]
    intro e he
    exact decide_eq_true (hid e (List.mem_reverse.mp he))
  have hpush : (NamespaceStack.mk [] 0).pushNamespace (.block id) false = ⟨[⟨.block id, false⟩], 0⟩ := rfl
  have hstep : readItem (.block id parts) ⟨[], 0⟩ =
      ((⟨⟨.block id, false⟩ :: extra, 0⟩ : NamespaceStack).popUptoNamespace (.block id), true) := by
    rw [readItem, hpush, hread]
    rfl
  rw [leftover, hstep]
  simp only [NamespaceStack.popUptoNamespace, NamespaceStack.poppedUpto, NamespaceStack.above,
    NamespaceStack.dropTop, List.drop_zero, List.reverse_cons, hinner]
  simp

end YastCore.Bytecode
