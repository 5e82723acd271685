import YastCore.Code.RoundTrip

/-!
# What the reader can yield

Whatever bytes it is given, the reader yields trees whose counts fit. A tree with counts that do not
fit is therefore never read back.
-/

namespace YastCore

open Codec

/-- The code inside a node that the reader takes from the stream. The parts of a function it may find
in the symbol entry. -/
@[simp] def Node.inner : Node YCode → List YCode
  | ycFunction _ _ => []
  | ysFunction _ _ _ _ => []
  | n => n.children

namespace Bytecode

open YCode Exec

variable {L : ReaderEnv} {rc : CodeReader YCode}

/-- The counts in a tree that was read. -/
def Sound (c : YCode) : Prop := c.Every Node.inner Node.Sized

@[simp] lemma sound_null : Sound .null := Every.null

@[simp] lemma sound_node {n : Node YCode} :
    Sound (.node n) ↔ n.Sized ∧ ∀ c ∈ n.inner, Sound c :=
  every_node

/-! ### Parts without code -/

lemma yields_readInt32 {τ : Type} : Yields (readInt32 : ByteReader τ Nat) fun n => n < 2 ^ 32 := by
  refine (yields_takeN _ 5).bind fun v hv => .pure ?_
  have hlt := leNat_lt (v.drop 1)
  rw [List.length_drop, hv] at hlt
  split
  · exact hlt
  · decide

lemma yields_readCharp : Yields readCharp CText.Fits := by
  refine yields_readInt32.bind fun len hlen => .ite (fun _ => .throw _) fun hne => ?_
  refine (yields_takeN _ len).bind fun buf hbuf => .pure ?_
  have hcut : (CText.ofBuffer buf).text.length ≤ buf.length := (List.takeWhile_prefix _).length_le
  rw [CText.Fits]
  omega

lemma yields_readEntry : Yields (readEntry L) fun e => ∀ e', e = some e' → EntryFits e' := by
  refine .after fun id => .after fun p => .after fun st => .ite (fun _ => .pure (by simp)) fun _ => ?_
  cases st.stack.namespacePtr id with
  | none => exact .pure (by simp)
  | some ns =>
    refine .ite (fun _ => ?_) fun hp => .ite (fun _ => .pure ?_) fun _ => .pure (by simp)
    · cases ns with
      | block b => exact .throw _
      | module m =>
        refine .pure fun e' he => ?_
        obtain ⟨q, -, rfl⟩ := Option.map_eq_some_iff.mp he
        trivial
    · rintro e' ⟨⟩
      cases ns with
      | block b => exact Nat.lt_of_not_le hp
      | module m => trivial

lemma yields_readEntryPtr : Yields (readEntryPtr L) EntryFits := by
  refine yields_readEntry.bind fun e he => ?_
  cases e with
  | none => exact .throw _
  | some e => exact .pure (he e rfl)

lemma yields_readPointChain (fuel : Nat) :
    Yields (readPointChain L fuel) fun l => ∀ q ∈ l, EntryFits q.1 := by
  induction fuel with
  | zero => exact .throw _
  | succ fuel ih =>
    refine yields_readEntryPtr.bind fun e he => .after fun line => .after fun b => ?_
    cases b with
    | true => exact ih.bind fun outer ho => .pure (List.forall_mem_cons.mpr ⟨he, ho⟩)
    | false => exact .pure (by simpa using he)

lemma yields_readPoint : Yields (readPoint L) Point.Fits := by
  have hchain : Yields (fun s => readPointChain L (s.1.length + 1) s : CodeReader _) fun l =>
      ∀ q ∈ l, EntryFits q.1 := fun s a s' h => yields_readPointChain _ s a s' h
  refine hchain.bind fun l hl => ?_
  cases l with
  | nil => exact .throw _
  | cons q outer => exact .pure (by simpa [Point.Fits] using hl)

/-- A value in the stream is no symbol entry. -/
lemma yields_readValue {τ : Type} (q : ByteReader τ CodePtr) :
    Yields (readValue q) fun v => ∀ e, v ≠ .entry e := by
  have hstep (fuel : Nat) : Yields (readValueFuel q fuel) fun v => ∀ e, v ≠ .entry e := by
    cases fuel with
    | zero => exact .throw _
    | succ fuel =>
      refine .after fun vt => ?_
      split
      case h_6 =>
        refine .after fun t => ?_
        cases parsePath t.2 with
        | none => exact .throw _
        | some p => exact .pure (by simp)
      case h_9 =>
        refine .after fun t => ?_
        obtain ⟨ok, name⟩ := t
        exact .ite (fun _ => .after fun _ => .pure (by simp)) fun _ => .pure (by simp)
      case h_10 => exact .after fun _ => .after fun _ => .pure (by simp)
      all_goals first | exact .pure (by simp) | exact .after fun _ => .pure (by simp)
  exact fun s v s' h => hstep _ s v s' h

lemma yields_readConst (kind : ConstKind) : Yields (readConst L kind) Sound := by
  have hdata (v : YCPValue) (hv : ∀ e, v ≠ .entry e) : Sound (.node (.yConst kind v)) := by
    refine sound_node.mpr ⟨?_, by simp⟩
    cases v <;> simp_all [Node.Sized]
  refine .after fun b => .ite (fun _ => ?_) fun _ => .pure (hdata _ (by simp))
  split
  · exact yields_readEntryPtr.bind fun e he => .pure (sound_node.mpr ⟨he, by simp⟩)
  · split
    · refine Yields.bind (P := fun v => ∀ e, v ≠ .entry e) ?_ fun v hv => .pure (hdata v hv)
      exact fun s v s' h => yields_readValue L.readQuoted _ v _ h
    · exact .pure (hdata _ (by simp))

lemma length_caseInsert_le (v : YCPValue) (index : Int32) (cases : List (YCPValue × Int32)) :
    (caseInsert v index cases).length ≤ cases.length + 1 := by
  induction cases with
  | nil => simp [caseInsert]
  | cons c cases ih =>
    simp only [caseInsert]
    split
    · simpa using ih
    · split <;> simp

lemma yields_readCase (cases : List (YCPValue × Int32)) :
    Yields (readCase L cases) fun cases' => cases'.length ≤ cases.length + 1 := by
  refine .after fun v => .ite (fun _ => .throw _) fun _ => .after fun index => .pure ?_
  exact length_caseInsert_le v index cases

/-! ### Lists, tables and functions -/

lemma yields_readYSFunction (line : UInt32) : Yields (readYSFunction L rc line) Sound := by
  refine yields_readEntryPtr.bind fun entry he => .after fun _ => .after fun d => .pure ?_
  exact sound_node.mpr ⟨he, by simp⟩

section Inner

variable (hrc : Yields rc Sound)

include hrc

lemma yields_readYCodelist (n : Nat) {l : List YCode} (hl : ∀ c ∈ l, Sound c) :
    Yields (readYCodelist rc n l) fun p => (∀ c ∈ p.2, Sound c) ∧ p.2.length ≤ l.length + n := by
  induction n generalizing l with
  | zero => exact .pure ⟨hl, le_rfl⟩
  | succ n ih =>
    refine hrc.bind fun c hc => .ite (fun _ => .pure ⟨hl, by simp⟩) fun _ => ?_
    refine (ih (List.forall_mem_append.mpr ⟨hl, by simpa using hc⟩)).mono fun p hp => ⟨hp.1, ?_⟩
    have hlen := hp.2
    rw [List.length_append, List.length_singleton] at hlen
    omega

lemma yields_readStatements (n : Nat) {l : List YCode} (hl : ∀ c ∈ l, Sound c) :
    Yields (readStatements rc n l) fun p => (∀ c ∈ p, Sound c) ∧ p.length ≤ l.length + n := by
  induction n generalizing l with
  | zero => exact .pure ⟨hl, le_rfl⟩
  | succ n ih =>
    refine hrc.bind fun c hc => .ite (fun _ => ?_) fun _ => .throw _
    refine (ih (List.forall_mem_append.mpr ⟨hl, by simpa using hc⟩)).mono fun p hp => ⟨hp.1, ?_⟩
    have hlen := hp.2
    rw [List.length_append, List.length_singleton] at hlen
    omega

lemma yields_readMapEntries (n : Nat) {l : List (YCode × YCode)}
    (hl : ∀ e ∈ l, Sound e.1 ∧ Sound e.2) :
    Yields (readMapEntries rc n l) fun p =>
      (∀ e ∈ p, Sound e.1 ∧ Sound e.2) ∧ p.length ≤ l.length + n := by
  induction n generalizing l with
  | zero => exact .pure ⟨hl, le_rfl⟩
  | succ n ih =>
    refine hrc.bind fun key hkey => hrc.bind fun value hvalue => ?_
    have hl' : ∀ e ∈ l ++ [(key, value)], Sound e.1 ∧ Sound e.2 := by
      refine List.forall_mem_append.mpr ⟨hl, ?_⟩
      simpa using ⟨hkey, hvalue⟩
    refine (ih hl').mono fun p hp => ⟨hp.1, ?_⟩
    have hlen := hp.2
    rw [List.length_append, List.length_singleton] at hlen
    omega

lemma yields_readOptional : Yields (readOptional rc) Sound := by
  refine .after fun b => ?_
  cases b with
  | true => exact hrc
  | false => exact .pure sound_null

lemma yields_readParameters (n : Nat) :
    Yields (readParameters rc n) fun p =>
      ∀ l, p = some l → (∀ c ∈ l, Sound c) ∧ l.length ≤ n := by
  refine (yields_readYCodelist hrc n (by simp)).bind fun p hp => .pure ?_
  obtain ⟨ok, l⟩ := p
  intro l' hl'
  cases ok with
  | true =>
    obtain rfl : l = l' := by simpa using hl'
    simpa using hp
  | false => simp at hl'

/-- An item of a table, as far as `Sized` counts it. -/
lemma yields_readTableItem : Yields (readTableItem L rc) fun i =>
    (EntryFits i.entry ∧ i.point.Fits) ∧ Sound i.prototype := by
  refine yields_readEntryPtr.bind fun entry he => yields_readPoint.bind fun point hp => .after fun st => ?_
  refine .ite (fun _ => ?_) fun _ => .pure ⟨⟨he, hp⟩, sound_null⟩
  refine hrc.bind fun prototype hc => .ite (fun _ => .throw _) fun _ => ?_
  exact .after fun _ => .pure ⟨⟨he, hp⟩, hc⟩

lemma yields_readTable (n : Nat) {l : List (TableItem YCode)}
    (hl : ∀ i ∈ l, (EntryFits i.entry ∧ i.point.Fits) ∧ Sound i.prototype) :
    Yields (readTable L rc n l) fun p =>
      (∀ i ∈ p, (EntryFits i.entry ∧ i.point.Fits) ∧ Sound i.prototype) ∧
        p.length ≤ l.length + n := by
  induction n generalizing l with
  | zero => exact .pure ⟨hl, le_rfl⟩
  | succ n ih =>
    refine (yields_readTableItem hrc).bind fun i hi => ?_
    refine (ih (List.forall_mem_append.mpr ⟨hl, by simpa using hi⟩)).mono fun p hp => ⟨hp.1, ?_⟩
    have hlen := hp.2
    rw [List.length_append, List.length_singleton] at hlen
    omega

lemma yields_readBlockTable (hasTable : Bool) :
    Yields (readBlockTable L rc hasTable) fun p =>
      (∀ i ∈ p, (EntryFits i.entry ∧ i.point.Fits) ∧ Sound i.prototype) ∧ p.length < 2 ^ 31 := by
  cases hasTable with
  | false => exact .pure (by simp)
  | true =>
    refine .after fun n => (yields_readTable hrc _ (by simp)).mono fun p hp => ⟨hp.1, ?_⟩
    have hlen := hp.2
    rw [List.length_nil] at hlen
    split at hlen <;> omega

lemma yields_readBlock : Yields (readBlock L rc) Sound := by
  refine yields_readCharp.bind fun name hname => .after fun kind => ?_
  cases BlockKind.all[kind]? with
  | none => exact .throw _
  | some kind =>
    refine .after fun st => .after fun _ => .after fun _ => yields_readInt32.bind fun scount hcount => ?_
    refine .after fun _ => (yields_readBlockTable hrc _).bind fun table htable => ?_
    refine yields_readPoint.bind fun point hpoint => yields_readInt32.bind fun count hlt => ?_
    refine (yields_readStatements hrc count (by simp)).bind fun statements hs => .after fun _ => .pure ?_
    have hlen := hs.2
    rw [List.length_nil] at hlen
    refine sound_node.mpr ⟨⟨hname, hcount, fun _ => ⟨htable.2, fun i hi => (htable.1 i hi).1⟩, hpoint,
      by omega⟩, List.forall_mem_append.mpr ⟨?_, hs.1⟩⟩
    exact List.forall_mem_map.mpr fun i hi => (htable.1 i hi).2

lemma yields_readBuiltin : Yields (readBuiltin L rc) Sound := by
  have hblock : Yields (readParameterblock rc) Sound := by
    refine .after fun b => ?_
    cases b with
    | true => exact hrc.bind fun c hc => .ite (fun _ => .pure hc) fun _ => .throw _
    | false => exact .pure sound_null
  refine .after fun _ => .after fun decl => hblock.bind fun block hb => .after fun _ => ?_
  refine yields_readInt32.bind fun n hn => (yields_readYCodelist hrc n (by simp)).bind fun p hp => ?_
  refine .after fun _ => .pure (sound_node.mpr ⟨?_, List.forall_mem_cons.mpr ⟨hb, hp.1⟩⟩)
  have hlen := hp.2
  rw [List.length_nil] at hlen
  exact (show p.2.length < 2 ^ 32 by omega)

lemma yields_readSwitch (line : UInt32) : Yields (readSwitch L rc line) Sound := by
  refine hrc.bind fun condition hc => .ite (fun _ => .throw _) fun _ => .after fun size => ?_
  have hcases := yields_countedLoop (fun (_ : Nat) cases => yields_readCase (L := L) cases) 0
    (if size < 2 ^ 31 then size else 0) []
  refine hcases.bind fun cases hlen => .after fun index => ?_
  refine hrc.bind fun block hb => .ite (fun _ => .throw _) fun _ => .pure (sound_node.mpr ⟨?_, ?_⟩)
  · rw [List.length_nil] at hlen
    show cases.length < 2 ^ 31
    split at hlen <;> omega
  · simpa using ⟨hc, hb⟩

/-- A call keeps the parameters that were read. -/
lemma yields_readCall : Yields (readCall L rc) Sound := by
  refine yields_readEntry.bind fun e he => ?_
  cases e with
  | none => exact .pure sound_null
  | some e =>
    refine yields_readInt32.bind fun n hn => (yields_readParameters hrc n).bind fun p hp => ?_
    cases p with
    | none => exact .pure sound_null
    | some l =>
      obtain ⟨hl, hlen⟩ := hp l rfl
      exact .pure (sound_node.mpr ⟨⟨he e rfl, by omega⟩, hl⟩)

lemma yields_readFunctionPointer : Yields (readFunctionPointer L rc) Sound := by
  refine yields_readEntryPtr.bind fun e he => ?_
  refine yields_readInt32.bind fun n hn => (yields_readParameters hrc n).bind fun p hp => ?_
  cases p with
  | none => exact .throw _
  | some l =>
    obtain ⟨hl, hlen⟩ := hp l rfl
    exact .pure (sound_node.mpr ⟨⟨he, by omega⟩, hl⟩)

lemma yields_readYETerm : Yields (readYETerm rc) Sound := by
  refine yields_readCharp.bind fun name hname => yields_readInt32.bind fun n hn => ?_
  refine (yields_readYCodelist hrc n (by simp)).bind fun p hp => ?_
  obtain ⟨ok, l⟩ := p
  refine .ite (fun _ => .pure (sound_node.mpr ⟨⟨hname, ?_⟩, hp.1⟩)) fun _ => .throw _
  have hlen := hp.2
  simp only [List.length_nil] at hlen
  omega

/-! ### Statements and expressions -/

lemma yields_readStatement (kind : Nat) (line : UInt32) :
    Yields (readStatement L rc kind line) Sound := by
  unfold readStatement
  split
  case h_1 =>
    exact yields_readCharp.bind fun name hname => .after fun _ => .pure (sound_node.mpr ⟨hname, by simp⟩)
  case h_2 =>
    refine yields_readEntryPtr.bind fun e he => hrc.bind fun c hc => .after fun _ => .pure ?_
    exact sound_node.mpr ⟨he, by simpa using hc⟩
  case h_3 => exact yields_readYSFunction line
  case h_4 =>
    refine yields_readEntryPtr.bind fun e he => hrc.bind fun c hc => .pure ?_
    exact sound_node.mpr ⟨he, by simpa using hc⟩
  case h_5 =>
    refine yields_readEntryPtr.bind fun e he => hrc.bind fun a ha => hrc.bind fun c hc => .pure ?_
    exact sound_node.mpr ⟨he, by simpa using ⟨ha, hc⟩⟩
  case h_6 =>
    refine hrc.bind fun c hc => (yields_readOptional hrc).bind fun t ht => ?_
    exact (yields_readOptional hrc).bind fun f hf => .pure (by simp [Node.Sized, hc, ht, hf])
  case h_7 =>
    exact hrc.bind fun c hc => (yields_readOptional hrc).bind fun l hl =>
      .pure (by simp [Node.Sized, hc, hl])
  case h_8 =>
    exact (yields_readOptional hrc).bind fun l hl => hrc.bind fun c hc =>
      .pure (by simp [Node.Sized, hc, hl])
  case h_9 =>
    exact (yields_readOptional hrc).bind fun l hl => hrc.bind fun c hc =>
      .pure (by simp [Node.Sized, hc, hl])
  case h_10 => exact hrc.bind fun c hc => .pure (by simp [Node.Sized, hc])
  case h_11 => exact (yields_readOptional hrc).bind fun c hc => .pure (by simp [Node.Sized, hc])
  case h_12 => exact .pure (by simp [Node.Sized])
  case h_13 => exact .pure (by simp [Node.Sized])
  case h_14 => exact yields_readCharp.bind fun t ht => .pure (sound_node.mpr ⟨ht, by simp⟩)
  case h_15 =>
    exact yields_readCharp.bind fun t ht => .after fun _ => .pure (sound_node.mpr ⟨ht, by simp⟩)
  case h_16 => exact yields_readCharp.bind fun t ht => .pure (sound_node.mpr ⟨ht, by simp⟩)
  case h_17 =>
    refine yields_readCharp.bind fun name hname => ?_
    cases L.modules name.text with
    | none => exact .throw _
    | some symbols =>
      refine .after fun _ => .after fun n => .after fun _ => .pure ?_
      exact sound_node.mpr ⟨hname, by simp⟩
  case h_18 => exact hrc.bind fun c hc => .pure (by simp [Node.Sized, hc])
  case h_19 => exact yields_readSwitch hrc line

lemma yields_readExpression (kind : Nat) : Yields (readExpression L rc kind) Sound := by
  unfold readExpression
  split
  case h_1 =>
    exact yields_readCharp.bind fun l hl => yields_readCharp.bind fun d hd =>
      .pure (sound_node.mpr ⟨⟨hl, hd⟩, by simp⟩)
  case h_2 => exact .after fun _ => .pure (by simp [Node.Sized])
  case h_3 => exact .after fun _ => .after fun _ => hrc.bind fun c hc => .pure (by simp [Node.Sized, hc])
  case h_4 =>
    refine .after fun d => ?_
    cases d with
    | none => exact .pure (by simp [Node.Sized])
    | some d => exact hrc.bind fun c hc => .pure (by simp [Node.Sized, hc])
  case h_5 =>
    refine .after fun d => ?_
    cases d with
    | none => exact .pure (by simp [Node.Sized])
    | some d => exact hrc.bind fun c hc => hrc.bind fun c' hc' => .pure (by simp [Node.Sized, hc, hc'])
  case h_6 =>
    exact hrc.bind fun c hc => hrc.bind fun t ht => hrc.bind fun f hf =>
      .pure (by simp [Node.Sized, hc, ht, hf])
  case h_7 =>
    exact hrc.bind fun c hc => .after fun _ => hrc.bind fun c' hc' =>
      .pure (by simp [Node.Sized, hc, hc'])
  case h_8 =>
    refine yields_readCharp.bind fun s hs => yields_readCharp.bind fun p hp => hrc.bind fun c hc => ?_
    exact yields_readCharp.bind fun d hd => .pure (sound_node.mpr ⟨⟨hs, hp, hd⟩, by simpa using hc⟩)
  case h_9 =>
    refine yields_readInt32.bind fun n hn => (yields_readYCodelist hrc n (by simp)).bind fun p hp => ?_
    have hlen := hp.2
    rw [List.length_nil] at hlen
    exact .pure (sound_node.mpr ⟨(show p.2.length < 2 ^ 32 by omega), hp.1⟩)
  case h_10 =>
    refine yields_readInt32.bind fun n hn => (yields_readMapEntries hrc n (by simp)).bind fun p hp => ?_
    have hlen := hp.2
    rw [List.length_nil] at hlen
    refine .pure (sound_node.mpr ⟨(show p.length < 2 ^ 32 by omega), fun c hc => ?_⟩)
    obtain ⟨e, he, hc⟩ := List.mem_flatMap.mp hc
    have hsound := hp.1 e he
    grind
  case h_11 => exact yields_readYETerm hrc
  case h_12 => exact .after fun _ => hrc.bind fun c hc => .pure (by simp [Node.Sized, hc])
  case h_13 =>
    refine hrc.bind fun c hc => hrc.bind fun t ht => hrc.bind fun f hf => .after fun _ => .pure ?_
    simp [Node.Sized, hc, ht, hf]
  case h_14 => exact yields_readBlock hrc
  case h_15 => exact hrc.bind fun c hc => .pure (by simp [Node.Sized, hc])
  case h_16 => exact yields_readEntryPtr.bind fun e he => .pure (sound_node.mpr ⟨he, by simp⟩)
  case h_17 => exact yields_readBuiltin hrc
  case h_18 => exact yields_readCall hrc
  case h_19 => exact yields_readEntryPtr.bind fun e he => .pure (sound_node.mpr ⟨he, by simp⟩)
  case h_20 => exact yields_readFunctionPointer hrc
  case h_21 => exact .pure sound_null

end Inner

lemma yields_readCodeFuel (fuel : Nat) : Yields (readCodeFuel L fuel) Sound := by
  induction fuel with
  | zero => exact .throw _
  | succ fuel ih =>
    refine .after fun b => .ite (fun _ => yields_readConst _) fun _ => ?_
    exact .ite (fun _ => .after fun line => yields_readStatement ih _ line) fun _ =>
      yields_readExpression ih _

/-- Whatever is read, its counts fit. -/
theorem yields_readCode : Yields (readCode L) Sound :=
  fun s c s' h => yields_readCodeFuel _ s c s' h

end Bytecode

end YastCore
