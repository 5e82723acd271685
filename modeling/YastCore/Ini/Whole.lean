import YastCore.Ini.Index

/-!
# Whole sections

`Read (.all)` and the text that `IniParser::write_helper` prints: what a section is after its own value was
written back. The map of a section has no field for its end comment.
-/

namespace YastCore.Ini

open Lines

/-! ### The value of a section -/

def addField (key : String) (v : YCPValue) (m : Fields) : Fields := YCPValue.mapInsert (.string (ascii key)) v m

def IniBase.getAllDoIt (b : IniBase) : Fields :=
  addField "comment" (.string b.comment)
    (addField "type" (.integer b.read_by.toInt64) (addField "name" (.string b.name) []))

def IniEntry.getAllDoIt (e : IniEntry) : Fields :=
  addField "value" (.string e.val) (addField "kind" (.string (ascii "value")) e.toIniBase.getAllDoIt)

mutual

/-- `IniSection::getAllDoIt` -/
def getAllDoIt : SectionOf Element → Fields
  | s => addField "value" (.list (getAllItems s.container)) (addField "file" (.integer s.rewrite_by.toInt64)
      (addField "kind" (.string (ascii "section")) s.toIniBase.getAllDoIt))

def getAllItems : List (Nat × Element) → List YCPValue
  | [] => []
  | x :: container => .map (getAllElement x.2) :: getAllItems container

def getAllElement : Element → Fields
  | .value e => e.getAllDoIt
  | .section s => getAllDoIt s

end

/-- No result is an error or a crash. -/
def SectionOf.getAll (o : Options) : List Text → IniSection → Option Fields
  | [], s => some (getAllDoIt s)
  | component :: path, s =>
    match (Slots.equalRange (changeCase o component) s.isections).head? with
    | none => none
    | some id =>
      match Assoc.find id s.container with
      | some (.section t) => getAll o path t
      | _ => none

/-! ### The text of a section -/

/-- The formats of a section's first and last line; the last may be missing. -/
structure SectionFormat where
  beginOut : Text → Text
  endOut : Option (Text → Text)

/-- What `IniParser` writes with; `quote` is the quoting of values, if they are quoted. -/
structure Formats where
  subindent : Text
  sections : List SectionFormat
  params : List (Text → Text → Text)
  quote : Text → Text

/-- The rule by its number, if there is one. -/
def ruleAt {α : Type} (rules : List α) (rb : Int32) : Option α :=
  if rb < 0 then none else rules[rb.toInt.toNat]?

def indent (w : Formats) (depth : Nat) : Text := (List.replicate (depth - 1) w.subindent).flatten

def indent2 (w : Formats) (depth : Nat) : Text := if depth = 0 then [] else indent w depth ++ w.subindent

def writeEntry (w : Formats) (depth : Nat) (e : IniEntry) : Text :=
  cut e.comment ++
    match ruleAt w.params e.read_by with
    | some line => indent2 w depth ++ line e.getName (w.quote (cut e.val)) ++ [10]
    | none => []

def writeBegin (w : Formats) (depth : Nat) (b : IniBase) : Text :=
  cut b.comment ++
    match ruleAt w.sections b.read_by with
    | some f => indent w depth ++ f.beginOut b.getName ++ [10]
    | none => []

def writeEndComment (w : Formats) (depth : Nat) (end_comment : Text) : Text :=
  if cut end_comment = [] then [] else indent w depth ++ cut end_comment

def writeEnd (w : Formats) (depth : Nat) (b : IniBase) : Text :=
  match (ruleAt w.sections b.read_by).bind SectionFormat.endOut with
  | some endOut => indent w depth ++ endOut b.getName ++ [10]
  | none => []

mutual

/-- `write_helper` -/
def writeHelper (w : Formats) (depth : Nat) : SectionOf Element → Text
  | s => writeBegin w depth s.toIniBase ++ (writeContainer w depth s.container ++
      (writeEndComment w depth s.end_comment ++ writeEnd w depth s.toIniBase))

def writeContainer (w : Formats) (depth : Nat) : List (Nat × Element) → Text
  | [] => []
  | x :: container => writeElement w depth x.2 ++ writeContainer w depth container

def writeElement (w : Formats) (depth : Nat) : Element → Text
  | .value e => writeEntry w depth e
  | .section s => writeHelper w (depth + 1) s

end

/-! ### Fields -/

section

variable {m : Fields} {v : YCPValue} {b : IniBase}

def StringKeys (m : Fields) : Prop := ∀ e ∈ m, e.1.isMapKey = true

lemma stringKeys_nil : StringKeys [] := fun _ he => absurd he List.not_mem_nil

lemma stringKeys_addField (h : StringKeys m) (key : String) (v : YCPValue) : StringKeys (addField key v m) := by
  intro e he
  rcases YCPValue.mem_mapInsert he with rfl | ⟨e', he', hkey, -⟩
  · rfl
  · rw [hkey]
    exact h e' he'

lemma mapValue_addField_self (h : StringKeys m) (key : String) (v : YCPValue) :
    YCPValue.mapValue (addField key v m) (.string (ascii key)) = v :=
  YCPValue.mapValue_mapInsert_self h rfl v

lemma mapValue_addField_of_ne (h : StringKeys m) {key : String} (v : YCPValue) {k : Text} (hne : ascii key ≠ k) :
    YCPValue.mapValue (addField key v m) (.string k) = YCPValue.mapValue m (.string k) :=
  YCPValue.mapValue_mapInsert_of_ne h rfl rfl (fun heq => hne (YCPValue.string.inj heq)) v

lemma toInt32_toInt64 (i : Int32) : i.toInt64.toInt32 = i := by
  simp

/-- The three fields of every element. -/
structure HasBase (m : Fields) (b : IniBase) : Prop where
  keys : StringKeys m
  name : YCPValue.mapValue m (.string (ascii "name")) = .string b.name
  type : YCPValue.mapValue m (.string (ascii "type")) = .integer b.read_by.toInt64
  comment : YCPValue.mapValue m (.string (ascii "comment")) = .string b.comment

lemma hasBase_getAllDoIt (b : IniBase) : HasBase b.getAllDoIt b := by
  have h₁ := stringKeys_addField stringKeys_nil "name" (.string b.name)
  have h₂ := stringKeys_addField h₁ "type" (.integer b.read_by.toInt64)
  refine ⟨stringKeys_addField h₂ _ _, ?_, ?_, ?_⟩
  · rw [IniBase.getAllDoIt, mapValue_addField_of_ne h₂ _ (by decide), mapValue_addField_of_ne h₁ _ (by decide),
      mapValue_addField_self stringKeys_nil]
  · rw [IniBase.getAllDoIt, mapValue_addField_of_ne h₂ _ (by decide), mapValue_addField_self h₁]
  · rw [IniBase.getAllDoIt, mapValue_addField_self h₂]

lemma HasBase.add (h : HasBase m b) (key : String) (v : YCPValue)
    (hkey : ascii key ∉ [ascii "name", ascii "type", ascii "comment"]) : HasBase (addField key v m) b := by
  simp only [List.mem_cons, List.not_mem_nil, or_false, not_or] at hkey
  refine ⟨stringKeys_addField h.keys _ _, ?_, ?_, ?_⟩
  · rw [mapValue_addField_of_ne h.keys v hkey.1, h.name]
  · rw [mapValue_addField_of_ne h.keys v hkey.2.1, h.type]
  · rw [mapValue_addField_of_ne h.keys v hkey.2.2, h.comment]

/-- The base fields are taken over. -/
lemma HasBase.setAllDoIt (h : HasBase m b) (b' : IniBase) :
    b'.setAllDoIt m = (⟨b.name, b.comment, b.read_by, true⟩, true) := by
  have hname : getMapString m (ascii "name") = some b.name := by rw [getMapString, h.name]
  have htype : getMapInteger m (ascii "type") = some b.read_by := by
    rw [getMapInteger, h.type]
    exact congrArg some (toInt32_toInt64 b.read_by)
  have hcomment : getMapString m (ascii "comment") = some b.comment := by rw [getMapString, h.comment]
  unfold IniBase.setAllDoIt
  rw [hname, htype, hcomment]

end

/-! ### Trees -/

lemma sizeOf_section_lt {s t : IniSection} {id : Nat} (h : (id, Element.section t) ∈ s.container) :
    sizeOf t < sizeOf s := by
  have hlt := List.sizeOf_lt_of_mem h
  obtain ⟨base, end_comment, is_private, rewrite_by, container, ivalues, isections⟩ := s
  rw [Prod.mk.sizeOf_spec, Element.section.sizeOf_spec] at hlt
  have hsize := SectionOf.mk.sizeOf_spec base end_comment is_private rewrite_by container ivalues isections
  dsimp only at hlt
  omega

/-- Induction over the sections of a tree. -/
lemma everywhere_true (s : IniSection) : Everywhere (fun _ => True) s := by
  induction hn : sizeOf s using Nat.strong_induction_on generalizing s with
  | _ n ih => exact .intro trivial fun id t ht => ih _ (hn ▸ sizeOf_section_lt ht) t rfl

mutual

/-- A section without its end comment and those of the sections below. -/
def stripSection : SectionOf Element → SectionOf Element
  | s => { s with end_comment := [], container := stripContainer s.container }

def stripContainer : List (Nat × Element) → List (Nat × Element)
  | [] => []
  | x :: container => (x.1, stripElement x.2) :: stripContainer container

def stripElement : Element → Element
  | .value e => .value e
  | .section s => .section (stripSection s)

end

section

variable {o : Options} {w : Formats} {depth : Nat} {s t : IniSection} {container : List (Nat × Element)}

lemma writeHelper_eq (w : Formats) (depth : Nat) (s : IniSection) :
    writeHelper w depth s = writeBegin w depth s.toIniBase ++ (writeContainer w depth s.container ++
      (writeEndComment w depth s.end_comment ++ writeEnd w depth s.toIniBase)) := by
  cases s
  rfl

lemma stripSection_eq (s : IniSection) :
    stripSection s = { s with end_comment := [], container := stripContainer s.container } := by
  cases s
  rfl

lemma getAllDoIt_eq (s : IniSection) :
    getAllDoIt s = addField "value" (.list (getAllItems s.container))
      (addField "file" (.integer s.rewrite_by.toInt64)
        (addField "kind" (.string (ascii "section")) s.toIniBase.getAllDoIt)) := by
  cases s
  rfl

lemma writeContainer_append (container container' : List (Nat × Element)) :
    writeContainer w depth (container ++ container') =
      writeContainer w depth container ++ writeContainer w depth container' := by
  induction container with
  | nil => rfl
  | cons x container ih => rw [List.cons_append, writeContainer, writeContainer, ih, List.append_assoc]

lemma writeContainer_push (x : Element) :
    writeContainer w depth (Slots.push x container) = writeContainer w depth container ++ writeElement w depth x := by
  rw [Slots.push, writeContainer_append, writeContainer, writeContainer, List.append_nil]

/-- The text of a section is that of its copies. -/
lemma writeHelper_copySection (depth : Nat) (s : IniSection) :
    writeHelper w depth (copySection o s) = writeHelper w depth s := by
  induction everywhere_true s generalizing depth with
  | @intro s _ below ih =>
    have hcontainer : ∀ container : List (Nat × Element), container ⊆ s.container →
        writeContainer w depth (copyContainer o container) = writeContainer w depth container := by
      intro container hsub
      induction container with
      | nil => rfl
      | cons x container ihc =>
        have hx : writeElement w depth (copyElement o x.2) = writeElement w depth x.2 := by
          obtain ⟨id, x⟩ := x
          cases x with
          | value e => rfl
          | «section» t => exact ih id t (hsub List.mem_cons_self) (depth + 1)
        rw [copyContainer, writeContainer, writeContainer, hx,
          ihc fun y hy => hsub (List.mem_cons_of_mem x hy)]
    rw [copySection_eq, writeHelper_eq, writeHelper_eq w depth s, ← hcontainer s.container fun _ hx => hx]
    rfl

/-! ### Writing back -/

/-- A value comes back with all its fields. -/
lemma setAllDoIt_entry (e : IniEntry) :
    IniEntry.new.setAllDoIt e.getAllDoIt = (⟨⟨e.name, e.comment, e.read_by, true⟩, e.val⟩, true) ∧
      getMapString e.getAllDoIt (ascii "kind") = some (ascii "value") := by
  have hkind := (hasBase_getAllDoIt e.toIniBase).add "kind" (.string (ascii "value")) (by decide)
  have hbase : HasBase e.getAllDoIt e.toIniBase := hkind.add "value" (.string e.val) (by decide)
  have hk : getMapString e.getAllDoIt (ascii "kind") = some (ascii "value") := by
    rw [getMapString, IniEntry.getAllDoIt, mapValue_addField_of_ne hkind.keys _ (by decide),
      mapValue_addField_self (hasBase_getAllDoIt e.toIniBase).keys]
  have hv : getMapString e.getAllDoIt (ascii "value") = some e.val := by
    rw [getMapString, IniEntry.getAllDoIt, mapValue_addField_self hkind.keys]
  refine ⟨?_, hk⟩
  unfold IniEntry.setAllDoIt
  rw [hbase.setAllDoIt]
  simp only [Bool.not_true, Bool.false_eq_true, if_false, hk, ne_eq, not_true_eq_false, hv]

/-- The fields of a section. -/
structure HasSection (m : Fields) (s : IniSection) : Prop extends HasBase m s.toIniBase where
  kind : getMapString m (ascii "kind") = some (ascii "section")
  file : getMapInteger m (ascii "file") = some s.rewrite_by
  value : YCPValue.mapValue m (.string (ascii "value")) = .list (getAllItems s.container)

lemma hasSection_getAllDoIt (s : IniSection) : HasSection (getAllDoIt s) s := by
  have hkind := (hasBase_getAllDoIt s.toIniBase).add "kind" (.string (ascii "section")) (by decide)
  have hfile := hkind.add "file" (.integer s.rewrite_by.toInt64) (by decide)
  rw [getAllDoIt_eq]
  refine ⟨hfile.add "value" _ (by decide), ?_, ?_, mapValue_addField_self hfile.keys _ _⟩
  · rw [getMapString, mapValue_addField_of_ne hfile.keys _ (by decide), mapValue_addField_of_ne hkind.keys _ (by decide),
      mapValue_addField_self (hasBase_getAllDoIt s.toIniBase).keys]
  · rw [getMapInteger, mapValue_addField_of_ne hfile.keys _ (by decide), mapValue_addField_self hkind.keys]
    exact congrArg some (toInt32_toInt64 s.rewrite_by)

/-- What the map of a section makes of another one. -/
lemma setAllDoIt_of_items (t : IniSection) {c : List (Nat × Element)}
    (hitems : setAllItems o [] [] (getAllItems s.container) = some (c, [], true)) :
    setAllDoIt o t (getAllDoIt s) = some ⟨SectionOf.reindex o { t with
      toIniBase := ⟨s.name, s.comment, s.read_by, true⟩, rewrite_by := s.rewrite_by, container := c }, [], true⟩ := by
  have h := hasSection_getAllDoIt s
  rw [setAllDoIt.eq_def]
  dsimp only
  rw [h.toHasBase.setAllDoIt]
  simp only [Bool.not_true, Bool.false_eq_true, if_false, h.kind, ne_eq, not_true_eq_false, h.file]
  split
  next l hl =>
    rw [h.value, YCPValue.list.injEq] at hl
    subst hl
    rw [hitems]
  next hnot => exact absurd h.value (hnot _)

lemma setAllItems_value (e : IniEntry) (items : List YCPValue) :
    setAllItems o container [] (.map e.getAllDoIt :: items) =
      setAllItems o (Slots.push (.value ⟨⟨e.name, e.comment, e.read_by, true⟩, e.val⟩) container) [] items := by
  obtain ⟨hset, hkind⟩ := setAllDoIt_entry e
  rw [setAllItems.eq_def]
  dsimp only
  rw [hkind, hset]
  dsimp only
  rw [if_neg (by decide), if_pos rfl]

lemma setAllItems_section {tree : IniSection} (items : List YCPValue)
    (hset : setAllDoIt o .new (getAllDoIt s) = some ⟨tree, [], true⟩) :
    setAllItems o container [] (.map (getAllDoIt s) :: items) =
      setAllItems o (Slots.push (.section (copySection o tree)) container) [] items := by
  have h := hasSection_getAllDoIt s
  rw [setAllItems.eq_def]
  dsimp only
  rw [h.kind, hset, h.value]
  dsimp only
  rw [if_pos rfl, if_neg (by simp [YCPValue.isNull]), if_neg (by simp [YCPValue.isVoid])]
  simp

/-- A tree is written back without its end comments. -/
lemma restores (s : IniSection) : ∃ c, setAllItems o [] [] (getAllItems s.container) = some (c, [], true) ∧
    ∀ w depth, writeContainer w depth c = writeContainer w depth (stripContainer s.container) := by
  induction everywhere_true s with
  | @intro s _ below ih =>
    have hlist : ∀ container acc : List (Nat × Element), container ⊆ s.container →
        ∃ c, setAllItems o acc [] (getAllItems container) = some (c, [], true) ∧
          ∀ w depth, writeContainer w depth c =
            writeContainer w depth acc ++ writeContainer w depth (stripContainer container) := by
      intro container
      induction container with
      | nil =>
        intro acc _
        refine ⟨acc, by rw [getAllItems, setAllItems], fun w depth => ?_⟩
        rw [stripContainer, writeContainer, List.append_nil]
      | cons x container ihc =>
        intro acc hsub
        have hrest := fun acc => ihc acc fun y hy => hsub (List.mem_cons_of_mem x hy)
        obtain ⟨id, x⟩ := x
        rw [getAllItems, stripContainer]
        cases x with
        | value e =>
          obtain ⟨c, hc, htext⟩ := hrest (Slots.push (.value ⟨⟨e.name, e.comment, e.read_by, true⟩, e.val⟩) acc)
          refine ⟨c, (setAllItems_value e _).trans hc, fun w depth => ?_⟩
          rw [htext, writeContainer_push, writeContainer, List.append_assoc]
          rfl
        | «section» t =>
          obtain ⟨c', hc', htext'⟩ := ih id t (hsub List.mem_cons_self)
          have hset := setAllDoIt_of_items (o := o) IniSection.new hc'
          obtain ⟨c, hc, htext⟩ := hrest (Slots.push (.section (copySection o _)) acc)
          refine ⟨c, (setAllItems_section _ hset).trans hc, fun w depth => ?_⟩
          rw [htext, writeContainer_push, writeContainer, List.append_assoc]
          congr 2
          rw [writeElement, writeHelper_copySection, writeHelper_eq, stripElement, writeElement, stripSection_eq,
            writeHelper_eq, ← htext']
          rfl
    obtain ⟨c, hc, htext⟩ := hlist s.container [] fun _ hx => hx
    exact ⟨c, hc, fun w depth => (htext w depth).trans (List.nil_append _)⟩

/-! ### What is lost -/

/-- A section that prints no end comment. -/
def NoEndComment (s : IniSection) : Prop := cut s.end_comment = []

/-- Texts that are the same under a condition, and of which one is shorter without it. -/
def SameOrShorter (P : Prop) (stripped whole : Text) : Prop :=
  (P ∧ stripped = whole) ∨ (¬ P ∧ stripped.length < whole.length)

lemma SameOrShorter.iff {P : Prop} {a b : Text} (h : SameOrShorter P a b) : a = b ↔ P := by
  rcases h with ⟨hP, heq⟩ | ⟨hP, hlt⟩
  · exact iff_of_true heq hP
  · refine iff_of_false (fun heq => ?_) hP
    rw [heq] at hlt
    omega

lemma SameOrShorter.append {P Q : Prop} {a b c d : Text} (h : SameOrShorter P a b) (h' : SameOrShorter Q c d) :
    SameOrShorter (P ∧ Q) (a ++ c) (b ++ d) := by
  rcases h with ⟨hP, rfl⟩ | ⟨hP, hlt⟩
  · rcases h' with ⟨hQ, rfl⟩ | ⟨hQ, hlt'⟩
    · exact .inl ⟨⟨hP, hQ⟩, rfl⟩
    · refine .inr ⟨fun hand => hQ hand.2, ?_⟩
      rw [List.length_append, List.length_append]
      omega
  · refine .inr ⟨fun hand => hP hand.1, ?_⟩
    have hle : c.length ≤ d.length := by
      rcases h' with ⟨-, rfl⟩ | ⟨-, hlt'⟩ <;> omega
    rw [List.length_append, List.length_append]
    omega

lemma SameOrShorter.refl (a : Text) : SameOrShorter True a a := .inl ⟨trivial, rfl⟩

lemma SameOrShorter.congr {P Q : Prop} {a b : Text} (h : SameOrShorter P a b) (hPQ : P ↔ Q) :
    SameOrShorter Q a b := by
  unfold SameOrShorter at *
  rwa [← hPQ]

lemma sameOrShorter_endComment (w : Formats) (depth : Nat) (end_comment : Text) :
    SameOrShorter (cut end_comment = []) [] (writeEndComment w depth end_comment) := by
  unfold writeEndComment
  by_cases h : cut end_comment = []
  · exact .inl ⟨h, (if_pos h).symm⟩
  · refine .inr ⟨h, ?_⟩
    rw [if_neg h, List.length_append, List.length_nil]
    have hpos := List.length_pos_of_ne_nil h
    omega

lemma everywhere_iff {P : IniSection → Prop} : Everywhere P s ↔ P s ∧ Below P s.container :=
  ⟨fun h => ⟨h.here, h.inside⟩, fun h => .intro h.1 h.2⟩

lemma sameOrShorter_container (s : IniSection) (w : Formats) (depth : Nat) :
    SameOrShorter (Below NoEndComment s.container) (writeContainer w depth (stripContainer s.container))
      (writeContainer w depth s.container) := by
  induction everywhere_true s generalizing depth with
  | @intro s _ below ih =>
    have hlist : ∀ container : List (Nat × Element), container ⊆ s.container →
        SameOrShorter (Below NoEndComment container) (writeContainer w depth (stripContainer container))
          (writeContainer w depth container) := by
      intro container hsub
      induction container with
      | nil => exact .inl ⟨fun id t ht => absurd ht List.not_mem_nil, rfl⟩
      | cons x container ihc =>
        have hrest := ihc fun y hy => hsub (List.mem_cons_of_mem x hy)
        obtain ⟨id, x⟩ := x
        rw [stripContainer, writeContainer, writeContainer]
        cases x with
        | value e =>
          refine ((SameOrShorter.refl _).append hrest).congr ⟨fun h i t ht => ?_, fun h => ⟨trivial, fun i t ht => ?_⟩⟩
          · rcases List.mem_cons.mp ht with heq | ht
            · cases heq
            · exact h.2 i t ht
          · exact h i t (List.mem_cons_of_mem _ ht)
        | «section» t =>
          have hinner := ih id t (hsub List.mem_cons_self) (depth + 1)
          have htext : SameOrShorter (Everywhere NoEndComment t) (writeHelper w (depth + 1) (stripSection t))
              (writeHelper w (depth + 1) t) := by
            rw [writeHelper_eq, writeHelper_eq w (depth + 1) t, stripSection_eq]
            refine ((SameOrShorter.refl _).append (hinner.append ((sameOrShorter_endComment w (depth + 1)
              t.end_comment).append (SameOrShorter.refl _)))).congr ?_
            rw [everywhere_iff]
            exact ⟨fun h => ⟨h.2.2.1, h.2.1⟩, fun h => ⟨trivial, h.2, h.1, trivial⟩⟩
          refine (htext.append hrest).congr ⟨fun h i u hu => ?_, fun h => ⟨h id t List.mem_cons_self, fun i u hu => ?_⟩⟩
          · rcases List.mem_cons.mp hu with heq | hu
            · cases heq
              exact h.1
            · exact h.2 i u hu
          · exact h i u (List.mem_cons_of_mem _ hu)
    exact hlist s.container fun _ hx => hx

/-- Only the text of the section that is replaced can differ. -/
lemma writeHelper_replace {id : Nat} {t' : IniSection} (h : Distinct s)
    (ht : Assoc.find id s.container = some (.section t)) :
    writeHelper w depth (s.replace id (.section t')) = writeHelper w depth s ↔
      writeHelper w (depth + 1) t' = writeHelper w (depth + 1) t := by
  obtain ⟨before, after, hsplit⟩ := List.append_of_mem (Slots.mem_of_find ht)
  have hnodup := h
  rw [Distinct, hsplit, List.map_append, List.map_cons] at hnodup
  have hbefore : ∀ p ∈ before, p.1 ≠ id := by
    rintro p hp rfl
    exact (List.nodup_append.mp hnodup).2.2 p.1 (List.mem_map.mpr ⟨p, hp, rfl⟩) p.1 List.mem_cons_self rfl
  have hafter : ∀ p ∈ after, p.1 ≠ id := by
    rintro p hp rfl
    exact (List.nodup_cons.mp (List.nodup_append.mp hnodup).2.1).1 (List.mem_map.mpr ⟨p, hp, rfl⟩)
  have hkeep : ∀ l : List (Nat × Element), (∀ p ∈ l, p.1 ≠ id) → Slots.replace id (.section t') l = l := by
    intro l hl
    rw [Slots.replace, List.map_congr_left fun p hp => if_neg (hl p hp), List.map_id']
  have hreplace : Slots.replace id (.section t') s.container = before ++ (id, .section t') :: after := by
    rw [hsplit, Slots.replace, List.map_append, List.map_cons, if_pos rfl, ← Slots.replace, ← Slots.replace,
      hkeep before hbefore, hkeep after hafter]
  rw [writeHelper_eq, writeHelper_eq w depth s]
  dsimp only [SectionOf.replace]
  rw [hreplace, hsplit, writeContainer_append, writeContainer_append, writeContainer, writeContainer, writeElement,
    writeElement, List.append_cancel_left_eq, List.append_cancel_right_eq, List.append_cancel_left_eq,
    List.append_cancel_right_eq]

/-- A section that gets its own value. -/
lemma setAllDoIt_getAllDoIt (o : Options) (s : IniSection) :
    ∃ r, setAllDoIt o s (getAllDoIt s) = some r ∧ r.ok = true ∧
      ∀ w depth, writeHelper w depth r.tree = writeHelper w depth s ↔ Below NoEndComment s.container := by
  obtain ⟨c, hc, htext⟩ := restores (o := o) s
  refine ⟨_, setAllDoIt_of_items s hc, rfl, fun w depth => ?_⟩
  have hbegin : writeBegin w depth ⟨s.name, s.comment, s.read_by, true⟩ = writeBegin w depth s.toIniBase := rfl
  have hend : writeEnd w depth ⟨s.name, s.comment, s.read_by, true⟩ = writeEnd w depth s.toIniBase := rfl
  rw [writeHelper_eq, writeHelper_eq w depth s]
  dsimp only [SectionOf.reindex]
  rw [htext, hbegin, hend, List.append_cancel_left_eq, List.append_cancel_right_eq,
    (sameOrShorter_container s w depth).iff]

end

namespace SectionOf

/-- Reading a section and writing it back succeeds, and what is printed is the same where no section below
it prints an end comment, and shorter otherwise. -/
theorem setAll_getAll_iff (o : Options) (w : Formats) (path : List Text) (s : IniSection) (m : Fields) (depth : Nat)
    (h : Everywhere Distinct s) (hread : getAll o path s = some m) :
    ∃ r, setAll o (.map m) path s = some r ∧ r.ok = true ∧
      (writeHelper w depth r.tree = writeHelper w depth s ↔
        ∀ t, allSection o path s = some t → Below NoEndComment t.container) := by
  induction path generalizing s depth with
  | nil =>
    cases hread
    obtain ⟨r, hr, hok, htext⟩ := setAllDoIt_getAllDoIt o s
    refine ⟨r, hr, hok, (htext w depth).trans ⟨fun hbelow t ht => ?_, fun hall => hall s rfl⟩⟩
    cases ht
    exact hbelow
  | cons component path ih =>
    rw [getAll] at hread
    cases hid : (Slots.equalRange (changeCase o component) s.isections).head? with
    | none =>
      rw [hid] at hread
      cases hread
    | some id =>
      rw [hid] at hread
      dsimp only at hread
      split at hread
      next t ht =>
        obtain ⟨r, hr, hok, htext⟩ := ih t (depth + 1) (h.inside id t (Slots.mem_of_find ht)) hread
        refine ⟨{ r with tree := s.replace id (.section r.tree) }, ?_, hok, ?_⟩
        · rw [setAll, hid]
          dsimp only
          rw [descend, ht]
          dsimp only
          rw [hr, Option.map_some]
        · dsimp only
          rw [writeHelper_replace h.here ht, htext, allSection, hid]
          dsimp only
          rw [ht]
      · cases hread

/-- A value in the root. -/
theorem setAll_getAll_value :
    ∃ r, setAll .plain (.map (getAllDoIt (IniSection.new.pushValue [107] IniEntry.new))) []
        (IniSection.new.pushValue [107] IniEntry.new) = some r ∧ r.ok = true ∧
      writeHelper ⟨[], [], [fun k v => k ++ 61 :: v], id⟩ 0 r.tree =
        writeHelper ⟨[], [], [fun k v => k ++ 61 :: v], id⟩ 0 (IniSection.new.pushValue [107] IniEntry.new) := by
  have h : Everywhere Distinct (IniSection.new.pushValue [107] IniEntry.new) :=
    .intro (List.nodup_singleton 1) fun id t ht => by simp [SectionOf.pushValue, Slots.push, IniSection.new] at ht
  obtain ⟨r, hr, hok, htext⟩ := setAll_getAll_iff .plain ⟨[], [], [fun k v => k ++ 61 :: v], id⟩ []
    (IniSection.new.pushValue [107] IniEntry.new) _ 0 h rfl
  refine ⟨r, hr, hok, htext.mpr fun t ht id u hu => ?_⟩
  cases ht
  simp [SectionOf.pushValue, Slots.push, IniSection.new] at hu

/-- A section with an end comment. -/
def commented : IniSection := { IniSection.named [97] with end_comment := [35, 99, 10] }

/-- The end comment is gone from the text. -/
theorem setAll_getAll_commented :
    ∃ r, setAll .plain (.map (getAllDoIt (IniSection.new.pushSection .plain [97] commented))) []
        (IniSection.new.pushSection .plain [97] commented) = some r ∧ r.ok = true ∧
      writeHelper ⟨[], [], [], id⟩ 0 r.tree ≠
        writeHelper ⟨[], [], [], id⟩ 0 (IniSection.new.pushSection .plain [97] commented) := by
  obtain ⟨r, hr, hok, htext⟩ := setAllDoIt_getAllDoIt .plain (IniSection.new.pushSection .plain [97] commented)
  refine ⟨r, hr, hok, fun hsame => ?_⟩
  have hbelow := (htext _ _).mp hsame 1 (copySection .plain commented) List.mem_cons_self
  have hcut : cut [35, 99, 10] ≠ [] := by decide
  exact hcut hbelow.here

end SectionOf

end YastCore.Ini
