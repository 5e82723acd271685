import YastCore.Code.Simulation

/-!
# Lists, tables and functions of code

What a node has several of, or has only sometimes. In each case the reader makes of the bytes that
the writer left the copies of what was written, given that it does so for the code inside.
-/

namespace YastCore

namespace Bytecode

open Codec YCode

variable {E : WriterEnv} {L : ReaderEnv} {B : Base} {F : List Frame} {k k' : Links}

/-! ### Copies -/

section Copies

variable (E L B)

/-- The counts fit and the constants are data, wherever something is written. -/
def Writable (c : YCode) : Prop :=
  c.Every (written E) fun n => n.Sized ∧ n.Constants E.isprint

/-- The counts inside the constants fit too. -/
def Readable (c : YCode) : Prop := c.Every (written E) (Node.ConstantsFit E.isprint)

/-- A block leaves the stack as it was, and is linked to its copy, a new one. -/
def Closes (F : List Frame) (k : Links) (s : NamespaceStack) (k' : Links) (c c' : YCode) : Prop :=
  ∀ info, c.blockInfo = some info → s = writerStack B F ∧
    ∃ info', c'.blockInfo = some info' ∧ k'.block info.id = some info'.id ∧
      k.world.next ≤ info'.id

/-- The reader makes of what was written for `c` the copy of `c`. -/
def Follows (c : YCode) : Prop :=
  ∀ ⦃F k w s c' k' fuel⦄, toStream E c (writerStack B F) = .ok (w, s) →
    copy E L c k = some (c', k') → Linked E L F k → w.length ≤ fuel →
    Simulates E L B (readCodeFuel L fuel) F k w s (Readable E c) c' k' ∧ Closes B F k s k' c c'

end Copies

lemma writeCounted_ok_iff {n : Nat} {items : Writer} {w : Bytes} {s s' : NamespaceStack} :
    writeCounted n items s = .ok (w, s') ↔
      ∃ w', items s = .ok (w', s') ∧ writeInt32 n ++ w' = w := by
  simp only [writeCounted, Exec.bind_ok_iff, Exec.pure_ok_iff]
  constructor
  · rintro ⟨w', _, h, hw, rfl⟩
    exact ⟨w', h, hw⟩
  · rintro ⟨w', h, hw⟩
    exact ⟨w', s', h, hw, rfl⟩

/-- What is written is no null pointer, and so its copy is none. -/
lemma isNull_copy {c c' : YCode} {w : Bytes} {s s' : NamespaceStack}
    (hw : toStream E c s = .ok (w, s')) (hc : copy E L c k = some (c', k')) :
    c'.isNull = false := by
  cases c with
  | null => simp [toStream] at hw
  | node n =>
    simp only [copy, CopyM.bind_some_iff, CopyM.pure_some_iff] at hc
    obtain ⟨n', _, -, rfl, -⟩ := hc
    rfl

/-! ### Lists of code -/

section Lists

variable {w : Bytes} {s : NamespaceStack} {fuel : Nat}

lemma simulates_list {l l' : List YCode} (ih : ∀ c ∈ l, Follows E L B c)
    (hw : toStreamList E l (writerStack B F) = .ok (w, s)) (hc : copyList E L l k = some (l', k'))
    (hk : Linked E L F k) (hfuel : w.length ≤ fuel) (acc : List YCode) :
    Simulates E L B (readYCodelist (readCodeFuel L fuel) l.length acc) F k w s
      (∀ c ∈ l, Readable E c) (true, acc ++ l') k' := by
  induction l generalizing F k w l' acc with
  | nil =>
    simp only [toStreamList, Exec.pure_ok_iff] at hw
    simp only [copyList, CopyM.pure_some_iff] at hc
    obtain ⟨rfl, rfl⟩ := hw
    obtain ⟨rfl, rfl⟩ := hc
    rw [List.append_nil]
    exact (simulates_of_reads hk (Reads.pure _ _)).congr (by simp)
  | cons c l ihl =>
    simp only [toStreamList, Exec.bind_ok_iff, Exec.pure_ok_iff] at hw
    simp only [copyList, CopyM.bind_some_iff, CopyM.pure_some_iff] at hc
    obtain ⟨w₁, s₁, hw₁, w₂, s₂, hw₂, rfl, rfl⟩ := hw
    obtain ⟨c', k₁, hc₁, l₂, k₂, hc₂, rfl, rfl⟩ := hc
    rw [List.length_append] at hfuel
    rw [List.forall_mem_cons]
    refine (ih c List.mem_cons_self hw₁ hc₁ hk (by omega)).1.bind ?_
    rintro F₁ rfl hk₁
    rw [if_neg (by simp [isNull_copy hw₁ hc₁]), ← List.singleton_append (l := l₂),
      ← List.append_assoc]
    exact ihl (fun c hc => ih c (List.mem_cons_of_mem _ hc)) hw₂ hc₂ hk₁ (by omega) _

lemma simulates_statements {l l' : List YCode} (ih : ∀ c ∈ l, Follows E L B c)
    (hw : toStreamList E l (writerStack B F) = .ok (w, s))
    (hc : copyStatements E L l k = some (l', k')) (hk : Linked E L F k) (hfuel : w.length ≤ fuel)
    (acc : List YCode) :
    Simulates E L B (readStatements (readCodeFuel L fuel) l.length acc) F k w s
      (∀ c ∈ l, Readable E c) (acc ++ l') k' := by
  induction l generalizing F k w l' acc with
  | nil =>
    simp only [toStreamList, Exec.pure_ok_iff] at hw
    simp only [copyStatements, CopyM.pure_some_iff] at hc
    obtain ⟨rfl, rfl⟩ := hw
    obtain ⟨rfl, rfl⟩ := hc
    rw [List.append_nil]
    exact (simulates_of_reads hk (Reads.pure _ _)).congr (by simp)
  | cons c l ihl =>
    simp only [toStreamList, Exec.bind_ok_iff, Exec.pure_ok_iff] at hw
    simp only [copyStatements, CopyM.bind_some_iff, CopyM.pure_some_iff, guardCopy_some_iff] at hc
    obtain ⟨w₁, s₁, hw₁, w₂, s₂, hw₂, rfl, rfl⟩ := hw
    obtain ⟨c', k₁, hc₁, _, _, ⟨hstatement, rfl⟩, l₂, k₂, hc₂, rfl, rfl⟩ := hc
    rw [List.length_append] at hfuel
    rw [List.forall_mem_cons]
    refine (ih c List.mem_cons_self hw₁ hc₁ hk (by omega)).1.bind ?_
    rintro F₁ rfl hk₁
    rw [if_pos hstatement, ← List.singleton_append (l := l₂), ← List.append_assoc]
    exact ihl (fun c hc => ih c (List.mem_cons_of_mem _ hc)) hw₂ hc₂ hk₁ (by omega) _

lemma simulates_entries {l l' : List (YCode × YCode)}
    (ih : ∀ e ∈ l, Follows E L B e.1 ∧ Follows E L B e.2)
    (hw : toStreamEntries E l (writerStack B F) = .ok (w, s))
    (hc : copyEntries E L l k = some (l', k')) (hk : Linked E L F k) (hfuel : w.length ≤ fuel)
    (acc : List (YCode × YCode)) :
    Simulates E L B (readMapEntries (readCodeFuel L fuel) l.length acc) F k w s
      (∀ e ∈ l, Readable E e.1 ∧ Readable E e.2) (acc ++ l') k' := by
  induction l generalizing F k w l' acc with
  | nil =>
    simp only [toStreamEntries, Exec.pure_ok_iff] at hw
    simp only [copyEntries, CopyM.pure_some_iff] at hc
    obtain ⟨rfl, rfl⟩ := hw
    obtain ⟨rfl, rfl⟩ := hc
    rw [List.append_nil]
    exact (simulates_of_reads hk (Reads.pure _ _)).congr (by simp)
  | cons e l ihl =>
    simp only [toStreamEntries, Exec.bind_ok_iff, Exec.pure_ok_iff] at hw
    simp only [copyEntries, CopyM.bind_some_iff, CopyM.pure_some_iff] at hc
    obtain ⟨wk, s₁, hwk, wv, s₂, hwv, w₂, s₃, hw₂, rfl, rfl⟩ := hw
    obtain ⟨key, k₁, hc₁, value, k₂, hc₂, l₂, k₃, hc₃, rfl, rfl⟩ := hc
    simp only [List.length_append] at hfuel
    obtain ⟨ih₁, ih₂⟩ := ih e List.mem_cons_self
    rw [List.forall_mem_cons, and_assoc]
    refine (ih₁ hwk hc₁ hk (by omega)).1.bind ?_
    rintro F₁ rfl hk₁
    refine (ih₂ hwv hc₂ hk₁ (by omega)).1.bind ?_
    rintro F₂ rfl hk₂
    rw [← List.singleton_append (l := l₂), ← List.append_assoc]
    exact ihl (fun e he => ih e (List.mem_cons_of_mem _ he)) hw₂ hc₃ hk₂ (by omega) _

/-! ### Optional code -/

/-- Code after a flag that says whether it is there. -/
lemma simulates_ifPresent {present : Bool} {c c' : YCode} (ih : present = true → Follows E L B c)
    (hw : writeIf present (toStream E c) (writerStack B F) = .ok (w, s))
    (hc : copyIf present (copy E L c) .null k = some (c', k')) (hk : Linked E L F k)
    (hfuel : w.length ≤ fuel) :
    Simulates E L B (readOptional (readCodeFuel L fuel)) F k (writeBool present ++ w) s
      (present = true → Readable E c) c' k' := by
  refine .first (reads_writeBool present) ?_
  cases present with
  | true => exact (ih rfl hw hc hk hfuel).1.congr (by simp)
  | false =>
    obtain ⟨rfl, rfl⟩ := Exec.pure_ok_iff.mp hw
    obtain ⟨rfl, rfl⟩ := CopyM.pure_some_iff.mp hc
    exact (simulates_of_reads hk (Reads.pure _ _)).congr (by simp)

lemma simulates_optional {c c' : YCode} (ih : Follows E L B c)
    (hw : toStreamOptional E c (writerStack B F) = .ok (w, s))
    (hc : copy E L c k = some (c', k')) (hk : Linked E L F k) (hfuel : w.length ≤ fuel) :
    Simulates E L B (readOptional (readCodeFuel L fuel)) F k w s (Readable E c) c' k' := by
  cases c with
  | null =>
    simp only [toStreamOptional, Exec.pure_ok_iff] at hw
    obtain ⟨rfl, rfl⟩ := hw
    have hread : Simulates E L B (readOptional (readCodeFuel L fuel)) F k (writeBool false ++ [])
        (writerStack B F) (false = true → Readable E .null) c' k' :=
      simulates_ifPresent (by simp) rfl hc hk (Nat.zero_le _)
    exact hread.congr (iff_of_true (by simp) Every.null)
  | node n =>
    simp only [toStreamOptional, Exec.bind_ok_iff, Exec.pure_ok_iff] at hw
    obtain ⟨w, _, hw, rfl, rfl⟩ := hw
    rw [List.length_append] at hfuel
    have hread : Simulates E L B (readOptional (readCodeFuel L fuel)) F k (writeBool true ++ w)
        _ (true = true → Readable E (.node n)) c' k' :=
      simulates_ifPresent (fun _ => ih) hw hc hk (by omega)
    exact hread.congr (by simp)

/-! ### Tables -/

lemma next_codeSet (w : World) (e : EntryRef) (c : YCode) : (codeSet L w e c).next = w.next := by
  rw [codeSet]
  split <;> rfl

lemma symbols_codeSet (w : World) (e : EntryRef) (c : YCode) :
    (codeSet L w e c).symbols = w.symbols := by
  rw [codeSet]
  split <;> rfl

lemma Linked.codeSet (hk : Linked E L F k) (e : EntryRef) (c : YCode) :
    Linked E L F { k with world := codeSet L k.world e c } where
  blocks := hk.blocks
  modules := hk.modules
  fresh b b' hb := by
    rw [next_codeSet]
    exact hk.fresh b b' hb
  symbols b b' hb := by
    rw [symbols_codeSet]
    exact hk.symbols b b' hb

lemma reads_setCode (e : EntryRef) (c : YCode) (w : World) :
    Reads (setCode L e c) (readerState E L B F w) [] () (readerState E L B F (codeSet L w e c)) :=
  reads_modifyState _ _

lemma simulates_tableItem {i : TableItem YCode} {entry' : EntryRef} {point' : Point}
    {prototype' : YCode} {we wp wf : Bytes} {s₁ s₂ : NamespaceStack} {k₁ : Links}
    (ih : (E.symbol i.entry).category = .c_function → (E.symbol i.entry).global = true →
      Follows E L B i.prototype)
    (hwe : writeEntry E i.entry (writerStack B F) = .ok (we, s₁))
    (hwp : writePoint E i.point s₁ = .ok (wp, s₂))
    (hwf : writeIf ((E.symbol i.entry).category = .c_function && (E.symbol i.entry).global)
      (toStream E i.prototype) s₂ = .ok (wf, s))
    (he : linkLocal k i.entry = some entry') (hp : copyPoint E L i.point k = some (point', k₁))
    (hc : copyTablePrototype L entry' (E.symbol i.entry) (copy E L i.prototype) k₁ =
      some (prototype', k'))
    (hk : Linked E L F k) (hentry : EntryFits i.entry) (hpoint : i.point.Fits)
    (hfuel : wf.length ≤ fuel) :
    Simulates E L B (readTableItem L (readCodeFuel L fuel)) F k (we ++ (wp ++ wf)) s
      ((E.symbol i.entry).category = .c_function → (E.symbol i.entry).global = true →
        Readable E i.prototype) ⟨entry', point', prototype'⟩ k' := by
  obtain ⟨rfl, hread⟩ := reads_entryPtr hk hwe (linkEntry_of_linkLocal he) hentry
  obtain ⟨rfl, rfl, hreadp⟩ := reads_point hk hwp hp hpoint
  refine .after hread (Extends.refl F _) (.after hreadp (Extends.refl F _) ?_)
  refine Simulates.after (w := []) (reads_getState _) (Extends.refl F _) ?_
  have hsymbol : (symbolAt L (readerState E L B F k₁.world).world entry').map Symbol.category =
      some (E.symbol i.entry).category := by
    rw [show (readerState E L B F k₁.world).world = k₁.world from rfl, symbolAt_of_linkLocal hk he]
    rfl
  rw [hsymbol]
  by_cases hfunction : (E.symbol i.entry).category = .c_function
  · simp only [copyTablePrototype, hfunction, if_true, CopyM.bind_some_iff, CopyM.pure_some_iff,
      guardCopy_some_iff, modifyWorld_some_iff] at hc
    obtain ⟨_, _, ⟨hglobal, rfl⟩, c, k₂, hcopy, _, _, rfl, rfl, rfl⟩ := hc
    simp only [writeIf, hfunction, hglobal, decide_true, Bool.and_true, if_true] at hwf
    rw [if_pos (by rw [hfunction])]
    rw [← List.append_nil wf]
    refine Simulates.congr ((ih hfunction hglobal hwf hcopy hk hfuel).1.bind_last ?_)
      (by simp [hfunction, hglobal])
    rintro F₁ rfl hk₁
    rw [if_neg (by simp [isNull_copy hwf hcopy])]
    refine Simulates.after (w := []) (k := { k₂ with world := codeSet L k₂.world entry' c })
      (reads_setCode entry' c k₂.world) (.of_next F₁ (next_codeSet ..).ge) ?_
    exact simulates_of_reads (hk₁.codeSet entry' c) (Reads.pure _ _)
  · simp only [copyTablePrototype, hfunction, if_false, CopyM.pure_some_iff] at hc
    obtain ⟨rfl, rfl⟩ := hc
    simp only [writeIf, hfunction, decide_false, Bool.false_and, Bool.false_eq_true, if_false,
      Exec.pure_ok_iff] at hwf
    obtain ⟨rfl, rfl⟩ := hwf
    rw [if_neg (by simpa using hfunction)]
    exact (simulates_of_reads hk (Reads.pure _ _)).congr (by simp [hfunction])

lemma simulates_table {l l' : List (TableItem YCode)}
    (ih : ∀ i ∈ l, (E.symbol i.entry).category = .c_function →
      (E.symbol i.entry).global = true → Follows E L B i.prototype)
    (hw : toStreamTable E l (writerStack B F) = .ok (w, s)) (hc : copyTable E L l k = some (l', k'))
    (hk : Linked E L F k) (hfits : ∀ i ∈ l, EntryFits i.entry ∧ i.point.Fits)
    (hfuel : w.length ≤ fuel) (acc : List (TableItem YCode)) :
    Simulates E L B (readTable L (readCodeFuel L fuel) l.length acc) F k w s
      (∀ i ∈ l, (E.symbol i.entry).category = .c_function → (E.symbol i.entry).global = true →
        Readable E i.prototype) (acc ++ l') k' := by
  induction l generalizing F k w l' acc with
  | nil =>
    simp only [toStreamTable, Exec.pure_ok_iff] at hw
    simp only [copyTable, CopyM.pure_some_iff] at hc
    obtain ⟨rfl, rfl⟩ := hw
    obtain ⟨rfl, rfl⟩ := hc
    rw [List.append_nil]
    exact (simulates_of_reads hk (Reads.pure _ _)).congr (by simp)
  | cons i l ihl =>
    obtain ⟨entry, point, prototype⟩ := i
    simp only [toStreamTable, Exec.bind_ok_iff, Exec.pure_ok_iff] at hw
    simp only [copyTable, CopyM.bind_some_iff, CopyM.pure_some_iff, copyLocal_some_iff] at hc
    obtain ⟨we, s₁, hwe, wp, s₂, hwp, wf, s₃, hwf, w₂, s₄, hw₂, rfl, rfl⟩ := hw
    obtain ⟨entry', _, ⟨he, rfl⟩, point', k₁, hp, prototype', k₂, hc₁, l₂, k₃, hc₂, rfl, rfl⟩ := hc
    simp only [List.length_append] at hfuel
    rw [List.forall_mem_cons, ← List.append_assoc wp, ← List.append_assoc we]
    have hitem := hfits _ List.mem_cons_self
    refine (simulates_tableItem (ih _ List.mem_cons_self) hwe hwp hwf he hp hc₁ hk hitem.1 hitem.2
      (by omega)).bind ?_
    rintro F₁ rfl hk₁
    rw [← List.singleton_append (l := l₂), ← List.append_assoc]
    exact ihl (fun i hi => ih i (List.mem_cons_of_mem _ hi)) hw₂ hc₂ hk₁
      (fun i hi => hfits i (List.mem_cons_of_mem _ hi)) (by omega) _

lemma simulates_blockTable {hasTable : Bool} {l l' : List (TableItem YCode)}
    (ih : hasTable = true → ∀ i ∈ l, (E.symbol i.entry).category = .c_function →
      (E.symbol i.entry).global = true → Follows E L B i.prototype)
    (hw : writeIf hasTable (writeCounted l.length (toStreamTable E l)) (writerStack B F) = .ok (w, s))
    (hc : copyIf hasTable (copyTable E L l) [] k = some (l', k')) (hk : Linked E L F k)
    (hfits : hasTable = true → l.length < 2 ^ 31 ∧ ∀ i ∈ l, EntryFits i.entry ∧ i.point.Fits)
    (hfuel : w.length ≤ fuel) :
    Simulates E L B (readBlockTable L (readCodeFuel L fuel) hasTable) F k w s
      (hasTable = true → ∀ i ∈ l, (E.symbol i.entry).category = .c_function →
        (E.symbol i.entry).global = true → Readable E i.prototype) l' k' := by
  cases hasTable with
  | false =>
    obtain ⟨rfl, rfl⟩ := Exec.pure_ok_iff.mp hw
    obtain ⟨rfl, rfl⟩ := CopyM.pure_some_iff.mp hc
    exact (simulates_of_reads hk (Reads.pure _ _)).congr (by simp)
  | true =>
    obtain ⟨w', hw', rfl⟩ := writeCounted_ok_iff.mp hw
    obtain ⟨hlt, hfits⟩ := hfits rfl
    rw [List.length_append] at hfuel
    refine .first (reads_writeInt32 (by omega)) ?_
    rw [if_pos hlt]
    exact (simulates_table (ih rfl) hw' hc hk hfits (by omega) []).congr (by simp)

end Lists

/-! ### Functions -/

section Functions

variable {w : Bytes} {s : NamespaceStack} {fuel : Nat}

/-- A block that is pushed again is on both stacks. -/
lemma Linked.push (hk : Linked E L F k) {b b' : Nat} (h : k.block b = some b') :
    Linked E L (F ++ [Frame.block b b']) k where
  blocks c c' hc := by
    rcases List.mem_append.mp hc with hc | hc
    · exact hk.blocks c c' hc
    · obtain ⟨rfl, rfl⟩ : c = b ∧ c' = b' := by simpa using hc
      exact h
  modules m hm := hk.modules m (by simpa using hm)
  fresh := hk.fresh
  symbols := hk.symbols

lemma Linked.of_append {G : List Frame} (hk : Linked E L (F ++ G) k) : Linked E L F k where
  blocks c c' hc := hk.blocks c c' (List.mem_append_left _ hc)
  modules m hm := hk.modules m (List.mem_append_left _ hm)
  fresh := hk.fresh
  symbols := hk.symbols

/-- A block that is kept accessible while other code is copied. -/
def heldFrame (b b' : Option Nat) : List Frame :=
  match b, b' with
  | some b, some b' => [.block b b']
  | _, _ => []

section Held

variable {b b' : Option Nat}

lemma Linked.hold (hk : Linked E L F k) (h : b.bind k.block = b') :
    Linked E L (F ++ heldFrame b b') k := by
  cases b with
  | none => simpa [heldFrame] using hk
  | some b =>
    cases b' with
    | none => simpa [heldFrame] using hk
    | some b' => exact hk.push h

lemma writerStack_hold (h : b.isSome = b'.isSome) :
    pushOptional (b.map .block) (writerStack B F) = writerStack B (F ++ heldFrame b b') := by
  cases b with
  | none => simp [heldFrame, pushOptional]
  | some b =>
    obtain ⟨b', rfl⟩ := Option.isSome_iff_exists.mp (h.symm.trans Option.isSome_some)
    exact writerStack_push F (.block b b')

lemma writerStack_release (h : b.isSome = b'.isSome) :
    popOptional (b.map .block) (writerStack B (F ++ heldFrame b b')) = writerStack B F := by
  cases b with
  | none => simp [heldFrame, popOptional]
  | some b =>
    obtain ⟨b', rfl⟩ := Option.isSome_iff_exists.mp (h.symm.trans Option.isSome_some)
    exact writerStack_pop F (.block b b')

lemma readerState_hold (h : b.isSome = b'.isSome) (w : World) :
    ReaderState.pushOptional (b'.map .block) (readerState E L B F w) =
      readerState E L B (F ++ heldFrame b b') w := by
  cases b' with
  | none => simp [heldFrame, ReaderState.pushOptional]
  | some b' =>
    obtain ⟨b, rfl⟩ := Option.isSome_iff_exists.mp (h.trans Option.isSome_some)
    exact readerState_push F b b' w

lemma readerState_release (h : b.isSome = b'.isSome) (w : World) :
    ReaderState.popOptional (b'.map .block) (readerState E L B (F ++ heldFrame b b') w) =
      readerState E L B F w := by
  cases b' with
  | none => simp [heldFrame, ReaderState.popOptional]
  | some b' =>
    obtain ⟨b, rfl⟩ := Option.isSome_iff_exists.mp (h.trans Option.isSome_some)
    exact readerState_pop F b b' w

/-- A frame of a block that was made later than another is not a frame of that one. -/
lemma later_frame {b b' : Nat} {f : Frame} (hk : Linked E L F k) (hb : Frame.block b b' ∈ F)
    (hf : f ∈ F) (hlater : ∀ c c', f = .block c c' → b' < c') :
    f.writer.name_space ≠ .block b ∧ f.reader.name_space ≠ .block b' := by
  cases f with
  | module m => simp [Frame.writer, Frame.reader]
  | block c c' =>
    have hlt := hlater c c' rfl
    refine ⟨fun h => ?_, fun h => ?_⟩
    · obtain rfl : c = b := by simpa [Frame.writer] using h
      have hlinks := (hk.blocks c c' hf).symm.trans (hk.blocks c b' hb)
      obtain rfl := Option.some.inj hlinks
      exact absurd hlt (Nat.lt_irrefl _)
    · obtain rfl : c' = b' := by simpa [Frame.reader] using h
      exact absurd hlt (Nat.lt_irrefl _)

/-- What is left on the stack above a held block keeps it there. -/
lemma release {G : List Frame} {k₁ k₂ : Links} (hk₁ : Linked E L (F ++ heldFrame b b') k₁)
    (hk₂ : Linked E L (F ++ heldFrame b b' ++ G) k₂) (hsome : b.isSome = b'.isSome)
    (hG : ∀ c c', Frame.block c c' ∈ G → k₁.world.next ≤ c') :
    ∃ F₂, popOptional (b.map .block) (writerStack B (F ++ heldFrame b b' ++ G)) = writerStack B F₂ ∧
      (∀ w, ReaderState.popOptional (b'.map .block) (readerState E L B (F ++ heldFrame b b' ++ G) w) =
        readerState E L B F₂ w) ∧ Linked E L F₂ k₂ ∧
      ∃ G₂, F₂ = F ++ G₂ ∧ ∀ c c', Frame.block c c' ∈ G₂ → some c' = b' ∨ Frame.block c c' ∈ G := by
  rcases List.eq_nil_or_concat' G with rfl | ⟨G', f, rfl⟩
  · rw [List.append_nil] at hk₂ ⊢
    exact ⟨F, writerStack_release hsome, readerState_release hsome, hk₂.of_append, [], by simp⟩
  · cases b with
    | none => exact ⟨_, rfl, by cases b' <;> simp_all [ReaderState.popOptional], hk₂, G' ++ [f],
        by simp [heldFrame], fun c c' h => .inr h⟩
    | some b =>
      obtain ⟨b', rfl⟩ := Option.isSome_iff_exists.mp (hsome.symm.trans Option.isSome_some)
      have hheld : Frame.block b b' ∈ heldFrame (some b) (some b') := List.mem_singleton_self _
      have hlt : b' < k₁.world.next :=
        hk₁.fresh b b' (hk₁.blocks b b' (List.mem_append_right _ hheld))
      obtain ⟨hwriter, hreader⟩ := later_frame hk₂
        (List.mem_append_left _ (List.mem_append_right _ hheld))
        (List.mem_append_right _ (List.mem_append_right _ (List.mem_singleton_self f)))
        (fun c c' h => Nat.lt_of_lt_of_le hlt (hG c c' (by simp [h])))
      refine ⟨_, ?_, fun w => ?_, hk₂, heldFrame (some b) (some b') ++ (G' ++ [f]),
        List.append_assoc _ _ _, fun c c' h => ?_⟩
      · rw [← List.append_assoc]
        exact writerStack_pop_other _ hwriter
      · rw [← List.append_assoc]
        exact readerState_pop_other _ w hreader
      · rcases List.mem_append.mp h with h | h
        · exact .inl (by simp_all [heldFrame])
        · exact .inr h

end Held

/-- The block behind `declarationNs`. -/
lemma declarationNs_eq (declaration : YCode) : ∃ b : Option Nat,
    declarationNs declaration = b.map NsId.block ∧ ∀ k, linkDeclaration k declaration = b.bind k.block := by
  cases h : declarationNs declaration with
  | none => exact ⟨none, rfl, fun k => by simp [linkDeclaration, h]⟩
  | some ns =>
    cases ns with
    | block b => exact ⟨some b, rfl, fun k => by simp [linkDeclaration, h]⟩
    | module m =>
      simp only [declarationNs] at h
      split at h
      · split at h <;> simp [BlockInfo.ns] at h
      · cases h

lemma blockInfo_map_ns (c : YCode) :
    c.blockInfo.map BlockInfo.ns = (c.blockInfo.map BlockInfo.id).map NsId.block := by
  cases c.blockInfo <;> rfl

lemma simulates_definition {entry' : EntryRef} {declaration definition : YCode} {d' : YCode × YCode}
    (ih : Follows E L B definition)
    (hw : writeDefinition (!definition.isNull) (declarationNs declaration) (toStream E definition)
      (writerStack B F) = .ok (w, s))
    (hc : copyDefinition L entry' declaration definition (copy E L definition) k = some (d', k'))
    (hk : Linked E L F k) (hfuel : w.length ≤ fuel) :
    Simulates E L B (readDefinition L (readCodeFuel L fuel) entry') F k w s
      (Readable E definition) d' k' := by
  simp only [copyDefinition, CopyM.bind_some_iff, CopyM.get_some_iff] at hc
  obtain ⟨_, _, ⟨rfl, rfl⟩, hc⟩ := hc
  refine Simulates.after (w := []) (reads_getState _) (Extends.refl F _) ?_
  rw [show (readerState E L B F k.world).world = k.world from rfl]
  cases hcode : asFunction (k.world.code entry') with
  | none => simp [hcode, CopyM.failure_some_iff] at hc
  | some f =>
    obtain ⟨declaration', old⟩ := f
    simp only [hcode] at hc
    simp only [CopyM.bind_some_iff, guardCopy_some_iff, decide_eq_true_eq] at hc
    obtain ⟨_, _, ⟨⟨hid, hsome⟩, rfl⟩, hc⟩ := hc
    obtain ⟨b, hb, hlink⟩ := declarationNs_eq declaration
    rw [hlink] at hid hsome
    cases definition with
    | null =>
      rw [if_pos (by rfl), CopyM.pure_some_iff] at hc
      simp only [writeDefinition, isNull, Bool.not_true, Bool.false_eq_true, if_false,
        Exec.pure_ok_iff] at hw
      obtain ⟨rfl, rfl⟩ := hc
      obtain ⟨rfl, rfl⟩ := hw
      refine Simulates.congr (simulates_of_reads hk ?_) (iff_of_true trivial Every.null)
      exact (reads_writeBool false _).bind_nil (Reads.pure _ _)
    | node n =>
      rw [if_neg (by simp [isNull])] at hc
      simp only [CopyM.bind_some_iff, guardCopy_some_iff] at hc
      obtain ⟨_, _, ⟨hblock, rfl⟩, c, k₁, hcopy, hc⟩ := hc
      cases hdef : asDefinition c with
      | none => simp [hdef, CopyM.failure_some_iff] at hc
      | some definition' =>
        simp only [hdef, CopyM.bind_some_iff, modifyWorld_some_iff, CopyM.pure_some_iff] at hc
        simp only [writeDefinition, isNull, Bool.not_false, if_true, Exec.bind_ok_iff,
          Exec.modify_ok_iff, Exec.pure_ok_iff] at hw
        obtain ⟨_, _, rfl, rfl, rfl⟩ := hc
        obtain ⟨_, _, rfl, w₁, s₁, hw₁, _, _, rfl, rfl, rfl⟩ := hw
        rw [hb, Option.isSome_map] at hsome
        rw [hb, writerStack_hold hsome] at hw₁
        rw [List.length_append] at hfuel
        obtain ⟨info, hinfo⟩ := Option.isSome_iff_exists.mp hblock
        obtain ⟨hsim, hclose⟩ := ih hw₁ hcopy (hk.hold rfl) (show w₁.length ≤ fuel by omega)
        obtain ⟨rfl, -⟩ := hclose info hinfo
        obtain ⟨hle, hk₁, hread⟩ := hsim.exact
        rw [hb, writerStack_release hsome]
        refine ⟨F, .of_next F (hle.trans (next_codeSet ..).ge), rfl, hk₁.of_append.codeSet entry' _, ?_⟩
        refine (reads_writeBool true _).bind_decides ?_
        rw [if_pos rfl, blockInfo_map_ns, hid]
        refine (reads_modifyState _ _).bind_decides_nil ?_
        rw [readerState_hold hsome]
        refine hread.map ?_
        simp only [hdef]
        refine (reads_modifyState _ _).bind_nil ?_
        rw [readerState_release hsome]
        exact (reads_setCode entry' _ k₁.world).bind_nil (Reads.pure _ _)

/-- A pointer to a block and its copy, as they are held. -/
structure Held (k k' : Links) (b b' : Option Nat) : Prop where
  linked : b.bind k'.block = b'
  isSome : b.isSome = b'.isSome
  new : ∀ id, b' = some id → k.world.next ≤ id

/-- The block of a builtin is closed when its parameters are begun. -/
lemma simulates_parameterblock {c c' : YCode} (ih : Follows E L B c)
    (hw : toStreamOptional E c (writerStack B F) = .ok (w, s))
    (hc : copy E L c k = some (c', k')) (hblock : (c.isNull || c.blockInfo.isSome) = true)
    (hk : Linked E L F k) (hfuel : w.length ≤ fuel) :
    Simulates E L B (readParameterblock (readCodeFuel L fuel)) F k w s (Readable E c) c' k' ∧
      s = writerStack B F ∧ Held k k' (c.blockInfo.map BlockInfo.id) (c'.blockInfo.map BlockInfo.id) := by
  cases c with
  | null =>
    simp only [toStreamOptional, Exec.pure_ok_iff] at hw
    simp only [copy, CopyM.pure_some_iff] at hc
    obtain ⟨rfl, rfl⟩ := hw
    obtain ⟨rfl, rfl⟩ := hc
    refine ⟨Simulates.congr (simulates_of_reads hk ?_) (iff_of_true trivial Every.null), rfl, rfl, rfl,
      by simp [blockInfo]⟩
    exact (reads_writeBool false _).bind_nil (Reads.pure _ _)
  | node n =>
    simp only [toStreamOptional, Exec.bind_ok_iff, Exec.pure_ok_iff] at hw
    obtain ⟨w, _, hw, rfl, rfl⟩ := hw
    rw [List.length_append] at hfuel
    obtain ⟨info, hinfo⟩ : ∃ info, (node n).blockInfo = some info :=
      Option.isSome_iff_exists.mp (by simpa [isNull] using hblock)
    obtain ⟨hsim, hclose⟩ := ih hw hc hk (show w.length ≤ fuel by omega)
    obtain ⟨rfl, info', hinfo', hlink, hnew⟩ := hclose info hinfo
    rw [hinfo, hinfo', Option.map_some, Option.map_some]
    refine ⟨.first (reads_writeBool true) (hsim.map fun st => ?_), rfl, hlink, rfl, ?_⟩
    · rw [if_pos (by rw [hinfo', Option.isSome_some])]
      exact Reads.pure _ st
    · rintro _ ⟨⟩
      exact hnew

end Functions

end Bytecode

end YastCore
