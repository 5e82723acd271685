import YastCore.Lib.Lines
import YastCore.Lib.Slots
import YastCore.Value.Container
import YastCore.Value.Path

/-!
# The tree of an ini file

`IniEntry` and `IniSection`: values and sections with the flag of what was changed, and the two multimaps
by which a section finds its elements. An iterator is the identity of the node it points to. No result
stands for a crash.
-/

namespace YastCore.Ini

open Lines

/-- The flags of `IniParser` that a section asks for, and the text of values that are no strings. -/
structure Options where
  ignore_case : Bool
  prefer_uppercase : Bool
  first_upper : Bool
  repeat_names : Bool
  flat : Bool
  toString : YCPValue → Text

def toupper (c : UInt8) : UInt8 := if 97 ≤ c ∧ c ≤ 122 then c - 32 else c

def tolower (c : UInt8) : UInt8 := if 65 ≤ c ∧ c ≤ 90 then c + 32 else c

def changeCase (o : Options) (str : Text) : Text :=
  if !o.ignore_case then str
  else if o.prefer_uppercase then str.map toupper
  else
    match str.map tolower with
    | [] => []
    | c :: tmp => if o.first_upper then toupper c :: tmp else c :: tmp

/-! ### Elements -/

structure IniBase where
  name : Text
  comment : Text
  read_by : Int32
  dirty : Bool

structure IniEntry extends IniBase where
  val : Text

structure SectionOf (ε : Type) extends IniBase where
  end_comment : Text
  is_private : Bool
  rewrite_by : Int32
  container : List (Nat × ε)
  ivalues : List (Text × Nat)
  isections : List (Text × Nat)

/-- `IniContainerElement` -/
inductive Element where
  | value (e : IniEntry)
  | section (s : SectionOf Element)

abbrev IniSection := SectionOf Element

def IniEntry.new : IniEntry := ⟨⟨[], [], 0, false⟩, []⟩

/-- `IniSection (ip)` -/
def IniSection.new : IniSection := ⟨⟨[], [], -1, false⟩, [], false, -1, [], [], []⟩

/-- `IniSection (ip, n)`: a section that was added. -/
def IniSection.named (n : Text) : IniSection := ⟨⟨n, [], 0, true⟩, [], false, 0, [], [], []⟩

/-- `getName` -/
def IniBase.getName (b : IniBase) : Text := cut b.name

def IniBase.init (b : IniBase) (n c : Text) (rb : Int32) : IniBase :=
  if b.dirty then b else { b with name := n, comment := c, read_by := rb }

def IniEntry.init (e : IniEntry) (n c : Text) (rb : Int32) (v : Text) : IniEntry :=
  if e.dirty then e else ⟨e.toIniBase.init n c rb, v⟩

/-! ### Maps of `Write (.all)` -/

abbrev Fields := List (YCPValue × YCPValue)

def getMapString (m : Fields) (k : Text) : Option Text :=
  match YCPValue.mapValue m (.string k) with
  | .string s => some s
  | _ => none

def getMapInteger (m : Fields) (k : Text) : Option Int32 :=
  match YCPValue.mapValue m (.string k) with
  | .integer i => some i.toInt32
  | _ => none

/-- The fields are set one after the other up to one that is missing. -/
def IniBase.setAllDoIt (b : IniBase) (m : Fields) : IniBase × Bool :=
  match getMapString m (ascii "name") with
  | none => ({ b with dirty := true }, false)
  | some name =>
    match getMapInteger m (ascii "type") with
    | none => ({ b with dirty := true, name := name }, false)
    | some type =>
      match getMapString m (ascii "comment") with
      | none => ({ b with dirty := true, name := name, read_by := type }, false)
      | some comment => (⟨name, comment, type, true⟩, true)

def IniEntry.setAllDoIt (e : IniEntry) (m : Fields) : IniEntry × Bool :=
  let (b, ok) := e.toIniBase.setAllDoIt m
  let e := { e with toIniBase := b }
  if !ok then (e, false)
  else if getMapString m (ascii "kind") ≠ some (ascii "value") then (e, false)
  else
    match getMapString m (ascii "value") with
    | none => (e, false)
    | some val => ({ e with val := val }, true)

/-! ### Containers and their indices -/

def valueKey (o : Options) : Element → Option Text
  | .value e => some (changeCase o e.getName)
  | .section _ => none

def sectionKey (o : Options) : Element → Option Text
  | .value _ => none
  | .section s => some (changeCase o s.getName)

namespace SectionOf

/-- `reindex` -/
def reindex (o : Options) (s : IniSection) : IniSection :=
  { s with
    ivalues := Slots.entries (valueKey o) s.container
    isections := Slots.entries (sectionKey o) s.container }

end SectionOf

mutual

def copyElement (o : Options) : Element → Element
  | .value e => .value e
  | .section s => .section (copySection o s)

/-- The copy of a section indexes itself, and so do the copies of its subsections. -/
def copySection (o : Options) : SectionOf Element → SectionOf Element
  | s => SectionOf.reindex o { s with container := copyContainer o s.container }

def copyContainer (o : Options) : List (Nat × Element) → List (Nat × Element)
  | [] => []
  | x :: container => (x.1, copyElement o x.2) :: copyContainer o container

end

namespace SectionOf

/-- A value at the end of the container, indexed by this key. -/
def pushValue (s : IniSection) (k : Text) (e : IniEntry) : IniSection :=
  { s with
    container := Slots.push (.value e) s.container
    ivalues := s.ivalues ++ [(k, Slots.fresh s.container)] }

/-- A copy of a section at the end of the container, indexed by this key. -/
def pushSection (o : Options) (s : IniSection) (k : Text) (t : IniSection) : IniSection :=
  { s with
    container := Slots.push (.section (copySection o t)) s.container
    isections := s.isections ++ [(k, Slots.fresh s.container)] }

def eraseValue (s : IniSection) (id : Nat) : IniSection :=
  { s with container := Slots.erase id s.container, ivalues := Slots.unindex id s.ivalues }

def eraseSection (s : IniSection) (id : Nat) : IniSection :=
  { s with container := Slots.erase id s.container, isections := Slots.unindex id s.isections }

def replace (s : IniSection) (id : Nat) (x : Element) : IniSection :=
  { s with container := Slots.replace id x s.container }

def delValue1 (s : IniSection) (id : Nat) : IniSection := { s.eraseValue id with dirty := true }

def delSection1 (s : IniSection) (id : Nat) : IniSection := { s.eraseSection id with dirty := true }

/-! ### What the parser calls -/

def initValue (o : Options) (s : IniSection) (key val comment : Text) (rb : Int32) : Option IniSection :=
  let k := changeCase o key
  match if o.repeat_names then none else (Slots.equalRange k s.ivalues).head? with
  | none => some (s.pushValue k (IniEntry.new.init k comment rb val))
  | some id =>
    match Assoc.find id s.container with
    | some (.value e) => some ((s.eraseValue id).pushValue k (e.init k comment rb val))
    | _ => none

/-- The section that the parser has met again, or a new one. -/
def initialized (k comment : Text) (rb wb : Int32) (s : IniSection) : IniSection :=
  { s with name := k, comment := comment, read_by := rb, rewrite_by := if wb ≠ -2 then wb else s.rewrite_by }

def initSection (o : Options) (s : IniSection) (name comment : Text) (rb wb : Int32) : Option IniSection :=
  let k := changeCase o name
  match if o.repeat_names then none else (Slots.equalRange k s.isections).head? with
  | none => some (s.pushSection o k (initialized k comment rb wb IniSection.new))
  | some id =>
    match Assoc.find id s.container with
    | some (.section t) =>
      let t := if t.dirty then t else initialized k comment rb wb t
      some ((s.eraseSection id).pushSection o k t)
    | _ => none

def setEndComment (s : IniSection) (c : Text) : IniSection :=
  if s.comment.isEmpty && s.container.isEmpty then { s with comment := c } else { s with end_comment := c }

end SectionOf

/-! ### What the saving calls -/

mutual

/-- `isDirty`: only sections are asked, those that the multimap leads to. -/
def isDirty : SectionOf Element → Bool
  | s => s.dirty || s.isections.any fun e => (dirtyIds s.container).contains e.2

def dirtyIds : List (Nat × Element) → List Nat
  | [] => []
  | x :: container => if isDirtyElement x.2 then x.1 :: dirtyIds container else dirtyIds container

def isDirtyElement : Element → Bool
  | .value _ => false
  | .section s => isDirty s

end

mutual

/-- `clean` -/
def clean : SectionOf Element → SectionOf Element
  | s => { s with dirty := false, container := cleanContainer s.container }

def cleanContainer : List (Nat × Element) → List (Nat × Element)
  | [] => []
  | x :: container => (x.1, cleanElement x.2) :: cleanContainer container

def cleanElement : Element → Element
  | .value e => .value { e with dirty := false }
  | .section s => .section (clean s)

end

namespace SectionOf

def initReadBy (s : IniSection) : IniSection := { s with read_by := -1 }

def setDirty (s : IniSection) : IniSection := { s with dirty := true }

end SectionOf

/-! ### Writing -/

/-- What an operation leaves: the section, the files of deleted sections by name and rule, and whether
it succeeded. -/
structure Outcome where
  tree : IniSection
  deleted : List (Text × Int32)
  ok : Bool

inductive ValueProp where
  | value
  | comment
  | type
deriving DecidableEq

inductive SectionProp where
  | comment
  | rewrite
  | type
  | isPrivate
deriving DecidableEq

/-- `to_string` -/
def valueText (o : Options) : YCPValue → Text
  | .string s => s
  | v => o.toString v

/-- Sets a property of a value; none if the property has the wrong type. -/
def IniEntry.setProp (o : Options) (what : ValueProp) (e : IniEntry) (prop : YCPValue) : Option IniEntry :=
  match what, prop with
  | .value, prop => some { e with dirty := true, val := valueText o prop }
  | .comment, .string c => some { e with dirty := true, comment := c }
  | .type, .integer i => some { e with dirty := true, read_by := i.toInt32 }
  | _, _ => none

namespace SectionOf

def setProp (what : SectionProp) (s : IniSection) (prop : YCPValue) : Option IniSection :=
  match what, prop with
  | .comment, .string c => some { s with dirty := true, comment := cut c }
  | .rewrite, .integer i => some { s with dirty := true, rewrite_by := i.toInt32 }
  | .type, .integer i => some { s with dirty := true, read_by := i.toInt32 }
  | .isPrivate, .boolean b => some { s with is_private := b }
  | _, _ => none

/-- The properties to set: one, or a list of them with repeated names. -/
def propsOf (o : Options) (v : YCPValue) : Option (List YCPValue) :=
  if o.repeat_names then
    match v with
    | .list props => some props
    | _ => none
  else some [v]

/-- The loop of `setMyValue` over the properties and the values found. -/
def setMyLoop (o : Options) (what : ValueProp) (k : Text) :
    List YCPValue → List Nat → IniSection → Option Outcome
  | [], ids, s => some ⟨{ ids.foldl delValue1 s with dirty := true }, [], true⟩
  | prop :: props, [], s =>
    if prop.isNull then none
    else if what ≠ .value then some ⟨s, [], false⟩
    else
      let e := { IniEntry.new with dirty := true, name := k, val := valueText o prop }
      setMyLoop o what k props [] (s.pushValue k e)
  | prop :: props, id :: ids, s =>
    if prop.isNull then none
    else
      match Assoc.find id s.container with
      | some (.value e) =>
        match e.setProp o what prop with
        | none => some ⟨s, [], false⟩
        | some e => setMyLoop o what k props ids (s.replace id (.value e))
      | _ => none

def setMyValue (o : Options) (s : IniSection) (component : Text) (v : YCPValue) (what : ValueProp) :
    Option Outcome :=
  let k := changeCase o component
  match propsOf o v with
  | none => some ⟨s, [], false⟩
  | some props => setMyLoop o what k props (Slots.equalRange k s.ivalues) s

/-- An operation on the section at an iterator. -/
def descend (s : IniSection) (id : Nat) (f : IniSection → Option Outcome) : Option Outcome :=
  match Assoc.find id s.container with
  | some (.section t) => (f t).map fun r => { r with tree := s.replace id (.section r.tree) }
  | _ => none

/-- The last section with the key, which is added if there is none. -/
def lastSection (o : Options) (s : IniSection) (k : Text) : IniSection × Nat :=
  match (Slots.equalRange k s.isections).getLast? with
  | some id => (s, id)
  | none => (s.pushSection o k (.named k), Slots.fresh s.container)

def setValue (o : Options) (v : YCPValue) (what : ValueProp) : List Text → IniSection → Option Outcome
  | [], s => some ⟨s, [], false⟩
  | [component], s => s.setMyValue o component v what
  | component :: path, s =>
    let (s, id) := s.lastSection o (changeCase o component)
    s.descend id (setValue o v what path)

/-- The loop of `setSectionProp` over the properties and the sections found. -/
def setSectionLoop (o : Options) (what : SectionProp) (k : Text) :
    List YCPValue → List Nat → IniSection → Option Outcome
  | [], ids, s => some ⟨ids.foldl delSection1 s, [], true⟩
  | prop :: props, [], s =>
    if prop.isNull then none
    else
      let id := Slots.fresh s.container
      let s := s.pushSection o k (.named k)
      match setProp what (.named k) prop with
      | none => some ⟨s, [], false⟩
      | some t => setSectionLoop o what k props [] (s.replace id (.section t))
  | prop :: props, id :: ids, s =>
    if prop.isNull then none
    else
      match Assoc.find id s.container with
      | some (.section t) =>
        match setProp what t prop with
        | none => some ⟨s, [], false⟩
        | some t => setSectionLoop o what k props ids (s.replace id (.section t))
      | _ => none

def setSectionProp (o : Options) (v : YCPValue) (what : SectionProp) :
    List Text → IniSection → Option Outcome
  | [], s => some ⟨s, [], false⟩
  | [component], s =>
    let k := changeCase o component
    match propsOf o v with
    | none => some ⟨s, [], false⟩
    | some props => setSectionLoop o what k props (Slots.equalRange k s.isections) s
  | component :: path, s =>
    let (s, id) := s.lastSection o (changeCase o component)
    s.descend id (setSectionProp o v what path)

end SectionOf

/-! ### Writing all at once -/

lemma sizeOf_mapValue_lt {m : Fields} {k v : YCPValue} (h : YCPValue.mapValue m k = v)
    (hv : v ≠ .null) : sizeOf v < sizeOf m := by
  unfold YCPValue.mapValue at h
  split at h
  next e he =>
    have hmem := List.mem_of_find?_eq_some he
    have hlt := List.sizeOf_lt_of_mem hmem
    obtain ⟨a, b⟩ := e
    rw [Prod.mk.sizeOf_spec] at hlt
    subst h
    dsimp only
    omega
  next => exact absurd h.symm hv

mutual

/-- `IniSection::setAllDoIt` -/
def setAllDoIt (o : Options) (s : IniSection) (m : Fields) : Option Outcome :=
  let (b, ok) := s.toIniBase.setAllDoIt m
  let s := { s with toIniBase := b }
  if !ok then some ⟨s, [], false⟩
  else if getMapString m (ascii "kind") ≠ some (ascii "section") then some ⟨s, [], false⟩
  else
    match getMapInteger m (ascii "file") with
    | none => some ⟨s, [], false⟩
    | some file =>
      let s := { s with rewrite_by := file }
      match h : YCPValue.mapValue m (.string (ascii "value")) with
      | .list l =>
        have : sizeOf l < sizeOf m := by
          have := sizeOf_mapValue_lt h (by simp)
          simp only [YCPValue.list.sizeOf_spec] at this
          omega
        match setAllItems o [] [] l with
        | none => none
        | some (container, deleted, ok) =>
          some ⟨SectionOf.reindex o { s with container := container }, deleted, ok⟩
      | _ => some ⟨s, [], false⟩
termination_by sizeOf m

/-- The loop over the items: the container, the deleted files, and whether all went well. -/
def setAllItems (o : Options) (container : List (Nat × Element)) (deleted : List (Text × Int32)) :
    List YCPValue → Option (List (Nat × Element) × List (Text × Int32) × Bool)
  | [] => some (container, deleted, true)
  | .null :: _ => none
  | .map m :: items =>
    match getMapString m (ascii "kind") with
    | none => some (container, deleted, false)
    | some kind =>
      if kind = ascii "section" then
        let value := YCPValue.mapValue m (.string (ascii "value"))
        if value.isNull then none
        else if value.isVoid then
          match getMapString m (ascii "name"), getMapInteger m (ascii "file") with
          | some name, some rb => setAllItems o container (deleted ++ [(name, rb)]) items
          | _, _ => some (container, deleted, false)
        else
          match setAllDoIt o .new m with
          | none => none
          | some r =>
            if !r.ok then some (container, deleted ++ r.deleted, false)
            else
              setAllItems o (Slots.push (.section (copySection o r.tree)) container) (deleted ++ r.deleted)
                items
      else if kind = ascii "value" then
        setAllItems o (Slots.push (.value (IniEntry.new.setAllDoIt m).1) container) deleted items
      else some (container, deleted, false)
  | _ :: _ => some (container, deleted, false)
termination_by items => sizeOf items

end

section

variable {o : Options}

/-- A section keeps its elements, or gets those of the items, indexed anew. -/
lemma setAllDoIt_cases {s : IniSection} {m : Fields} {r : Outcome} (hr : setAllDoIt o s m = some r) :
    ∃ file, (r = ⟨{ s with toIniBase := (s.toIniBase.setAllDoIt m).1, rewrite_by := file }, [], false⟩) ∨
      ∃ l container deleted ok, YCPValue.mapValue m (.string (ascii "value")) = .list l ∧
        setAllItems o [] [] l = some (container, deleted, ok) ∧
        r = ⟨SectionOf.reindex o { s with
          toIniBase := (s.toIniBase.setAllDoIt m).1, rewrite_by := file, container := container },
          deleted, ok⟩ := by
  rw [setAllDoIt.eq_def] at hr
  dsimp only at hr
  split at hr
  · cases hr
    exact ⟨s.rewrite_by, .inl rfl⟩
  · split at hr
    · cases hr
      exact ⟨s.rewrite_by, .inl rfl⟩
    · split at hr
      · cases hr
        exact ⟨s.rewrite_by, .inl rfl⟩
      next file _ =>
        split at hr
        next l hl =>
          split at hr
          · cases hr
          next container deleted ok hitems =>
            cases hr
            exact ⟨file, .inr ⟨l, container, deleted, ok, hl, hitems, rfl⟩⟩
        · cases hr
          exact ⟨file, .inl rfl⟩

/-- Without a name, a type and a comment, the elements stay. -/
lemma setAllDoIt_incomplete {s : IniSection} {m : Fields} (h : (s.toIniBase.setAllDoIt m).2 = false) :
    setAllDoIt o s m = some ⟨{ s with toIniBase := (s.toIniBase.setAllDoIt m).1 }, [], false⟩ := by
  rw [setAllDoIt.eq_def]
  dsimp only
  rw [h]
  exact if_pos rfl

/-- An item ends the loop, is the name of a deleted file, or adds an element. -/
lemma setAllItems_cases {container : List (Nat × Element)} {deleted : List (Text × Int32)} {item : YCPValue}
    {items : List YCPValue} {q : List (Nat × Element) × List (Text × Int32) × Bool}
    (hq : setAllItems o container deleted (item :: items) = some q) :
    (q.1 = container ∧ q.2.2 = false) ∨ (∃ d, setAllItems o container d items = some q) ∨
      ∃ m, item = .map m ∧
        ((∃ r, setAllDoIt o .new m = some r ∧ setAllItems o (Slots.push (.section (copySection o r.tree)) container)
          (deleted ++ r.deleted) items = some q) ∨
        setAllItems o (Slots.push (.value (IniEntry.new.setAllDoIt m).1) container) deleted items = some q) := by
  rw [setAllItems.eq_def] at hq
  dsimp only at hq
  split at hq
  next h => cases h
  · cases hq
  next m items heq =>
    cases heq
    split at hq
    · cases hq
      exact .inl ⟨rfl, rfl⟩
    · split at hq
      · by_cases hnull : (YCPValue.mapValue m (.string (ascii "value"))).isNull
        · rw [if_pos hnull] at hq
          cases hq
        · rw [if_neg hnull] at hq
          by_cases hvoid : (YCPValue.mapValue m (.string (ascii "value"))).isVoid
          · rw [if_pos hvoid] at hq
            split at hq
            · exact .inr (.inl ⟨_, hq⟩)
            · cases hq
              exact .inl ⟨rfl, rfl⟩
          · rw [if_neg hvoid] at hq
            split at hq
            · cases hq
            next r hr =>
              split at hq
              · cases hq
                exact .inl ⟨rfl, rfl⟩
              · exact .inr (.inr ⟨_, rfl, .inl ⟨r, hr, hq⟩⟩)
      · split at hq
        · exact .inr (.inr ⟨_, rfl, .inr hq⟩)
        · cases hq
          exact .inl ⟨rfl, rfl⟩
  · cases hq
    exact .inl ⟨rfl, rfl⟩

/-- What holds of the containers of the items by the way they are built. -/
theorem setAllItems_induct {C : List (Nat × Element) → Prop} (hnil : C [])
    (hvalue : ∀ c m, C c → C (Slots.push (.value (IniEntry.new.setAllDoIt m).1) c))
    (hsection : ∀ c (s : IniSection), C c → C s.container → C (Slots.push (.section (copySection o s)) c))
    (l : List YCPValue) {container : List (Nat × Element)} {deleted : List (Text × Int32)}
    {q : List (Nat × Element) × List (Text × Int32) × Bool} (hc : C container)
    (hq : setAllItems o container deleted l = some q) : C q.1 := by
  induction hn : sizeOf l using Nat.strong_induction_on generalizing l container deleted q with
  | _ n ih =>
    cases l with
    | nil =>
      rw [setAllItems] at hq
      cases hq
      exact hc
    | cons item items =>
      have hitems : sizeOf items < n := by
        rw [← hn, List.cons.sizeOf_spec]
        omega
      rcases setAllItems_cases hq with ⟨h, -⟩ | ⟨d, h⟩ | ⟨m, rfl, ⟨r, hr, h⟩ | h⟩
      · rw [h]
        exact hc
      · exact ih _ hitems items hc h rfl
      · have hnew : C r.tree.container := by
          obtain ⟨file, rfl | ⟨l, c, d, ok, hl, hall, rfl⟩⟩ := setAllDoIt_cases hr
          · exact hnil
          · have hlt : sizeOf l < n := by
              have hml := sizeOf_mapValue_lt hl (by simp)
              rw [YCPValue.list.sizeOf_spec] at hml
              rw [← hn, List.cons.sizeOf_spec, YCPValue.map.sizeOf_spec]
              omega
            exact ih _ hlt l hnil hall rfl
        exact ih _ hitems items (hsection _ _ hc hnew) h rfl
      · exact ih _ hitems items (hvalue _ _ hc) h rfl

end

namespace SectionOf

/-- `in->asMap ()` does not return for another value. -/
def setAll (o : Options) (v : YCPValue) : List Text → IniSection → Option Outcome
  | [], s =>
    match v with
    | .map m => setAllDoIt o s m
    | _ => none
  | component :: path, s =>
    match (Slots.equalRange (changeCase o component) s.isections).head? with
    | none => some ⟨s, [], false⟩
    | some id => s.descend id (setAll o v path)

lemma setAll_nil {o : Options} {v : YCPValue} {s : IniSection} {r : Outcome} (hr : setAll o v [] s = some r) :
    ∃ m, v = .map m ∧ setAllDoIt o s m = some r := by
  unfold setAll at hr
  split at hr
  · exact ⟨_, rfl, hr⟩
  · cases hr

/-! ### Deleting -/

def delMyValue (s : IniSection) (k : Text) : IniSection := (Slots.equalRange k s.ivalues).foldl delValue1 s

def delValue (o : Options) : List Text → IniSection → Option Outcome
  | [], s => some ⟨s, [], false⟩
  | [component], s => some ⟨s.delMyValue (changeCase o component), [], true⟩
  | component :: path, s =>
    match (Slots.equalRange (changeCase o component) s.isections).getLast? with
    | none => some ⟨s, [], false⟩
    | some id => s.descend id (delValue o path)

def delSection (o : Options) : List Text → IniSection → Option Outcome
  | [], s => some ⟨s, [], false⟩
  | [component], s =>
    some ⟨(Slots.equalRange (changeCase o component) s.isections).foldl delSection1 s, [], true⟩
  | component :: path, s =>
    match (Slots.equalRange (changeCase o component) s.isections).getLast? with
    | none => some ⟨s, [], false⟩
    | some id => s.descend id (delSection o path)

/-! ### The generic interface -/

/-- `IniSection::Write`; `rewrite` tells what the type of a section means. -/
def write (o : Options) (rewrite : Bool) (p : List Text) (v : YCPValue) (s : IniSection) :
    Option Outcome :=
  match p with
  | [] => some ⟨s, [], false⟩
  | c :: path =>
    if o.flat then
      s.setMyValue o c v (if path.head? = some (ascii "comment") then .comment else .value)
    else if c = ascii "all" then setAll o v path s
    else if path = [] then some ⟨s, [], false⟩
    else if c ∈ [ascii "v", ascii "value"] then setValue o v .value path s
    else if c ∈ [ascii "vc", ascii "value_comment", ascii "valuecomment"] then setValue o v .comment path s
    else if c ∈ [ascii "vt", ascii "value_type", ascii "valuetype"] then setValue o v .type path s
    else if c ∈ [ascii "s", ascii "section", ascii "sc", ascii "section_comment", ascii "sectioncomment"] then
      setSectionProp o v .comment path s
    else if c ∈ [ascii "st", ascii "section_type", ascii "sectiontype"] then
      setSectionProp o v (if rewrite then .rewrite else .type) path s
    else if c = ascii "section_private" then setSectionProp o v .isPrivate path s
    else some ⟨s, [], false⟩

/-- `IniSection::Delete` -/
def delete (o : Options) (p : List Text) (s : IniSection) : Option Outcome :=
  match p with
  | [] => some ⟨s, [], false⟩
  | c :: path =>
    if o.flat then some ⟨s.delMyValue (changeCase o c), [], true⟩
    else if path = [] then some ⟨s, [], false⟩
    else if c ∈ [ascii "v", ascii "value"] then delValue o path s
    else if c ∈ [ascii "s", ascii "section"] then delSection o path s
    else some ⟨s, [], false⟩

/-- The property of a value that the first component of a path stands for. -/
def valueWhat (c : Text) : Option ValueProp :=
  if c ∈ [ascii "v", ascii "value"] then some .value
  else if c ∈ [ascii "vc", ascii "value_comment", ascii "valuecomment"] then some .comment
  else if c ∈ [ascii "vt", ascii "value_type", ascii "valuetype"] then some .type
  else none

/-- What a `Write` can do. -/
lemma write_cases {o : Options} {rewrite : Bool} {p : List Text} {v : YCPValue} {s : IniSection} {r : Outcome}
    (hr : s.write o rewrite p v = some r) :
    (r = ⟨s, [], false⟩ ∧ (p = [] ∨ o.flat = false ∧ ∃ c path, p = c :: path ∧ c ≠ ascii "all" ∧
        (path = [] ∨ valueWhat c = none))) ∨
      (o.flat = true ∧ ∃ c path, p = c :: path ∧
        s.setMyValue o c v (if path.head? = some (ascii "comment") then .comment else .value) = some r) ∨
      (o.flat = false ∧ ∃ path, p = ascii "all" :: path ∧ setAll o v path s = some r) ∨
      (o.flat = false ∧ ∃ c path, p = c :: path ∧ c ≠ ascii "all" ∧ path ≠ [] ∧
        ((∃ what, valueWhat c = some what ∧ setValue o v what path s = some r) ∨
          valueWhat c = none ∧ ∃ what, setSectionProp o v what path s = some r)) := by
  unfold write at hr
  split at hr
  · cases hr
    exact .inl ⟨rfl, .inl rfl⟩
  next c path =>
    by_cases hflat : o.flat
    · rw [if_pos hflat] at hr
      exact .inr (.inl ⟨hflat, c, path, rfl, hr⟩)
    · rw [if_neg hflat] at hr
      have hflat : o.flat = false := by simpa using hflat
      by_cases hall : c = ascii "all"
      · rw [if_pos hall] at hr
        exact .inr (.inr (.inl ⟨hflat, path, by rw [hall], hr⟩))
      · rw [if_neg hall] at hr
        by_cases hpath : path = []
        · rw [if_pos hpath] at hr
          cases hr
          exact .inl ⟨rfl, .inr ⟨hflat, c, path, rfl, hall, .inl hpath⟩⟩
        · rw [if_neg hpath] at hr
          have hrest : (r = ⟨s, [], false⟩ ∧ valueWhat c = none) ∨
              (∃ what, valueWhat c = some what ∧ setValue o v what path s = some r) ∨
              valueWhat c = none ∧ ∃ what, setSectionProp o v what path s = some r := by
            split at hr
            next hc => exact .inr (.inl ⟨_, if_pos hc, hr⟩)
            next hv =>
              split at hr
              next hc => exact .inr (.inl ⟨_, by rw [valueWhat, if_neg hv, if_pos hc], hr⟩)
              next hvc =>
                split at hr
                next hc => exact .inr (.inl ⟨_, by rw [valueWhat, if_neg hv, if_neg hvc, if_pos hc], hr⟩)
                next hvt =>
                  have hnone : valueWhat c = none := by rw [valueWhat, if_neg hv, if_neg hvc, if_neg hvt]
                  split at hr
                  · exact .inr (.inr ⟨hnone, _, hr⟩)
                  · split at hr
                    · exact .inr (.inr ⟨hnone, _, hr⟩)
                    · split at hr
                      · exact .inr (.inr ⟨hnone, _, hr⟩)
                      · cases hr
                        exact .inl ⟨rfl, hnone⟩
          rcases hrest with ⟨rfl, hnone⟩ | hrest
          · exact .inl ⟨rfl, .inr ⟨hflat, c, path, rfl, hall, .inr hnone⟩⟩
          · exact .inr (.inr (.inr ⟨hflat, c, path, rfl, hall, hpath, hrest⟩))

/-- What a `Delete` can do. -/
lemma delete_cases {o : Options} {p : List Text} {s : IniSection} {r : Outcome} (hr : s.delete o p = some r) :
    (r = ⟨s, [], false⟩ ∧ (p = [] ∨ o.flat = false ∧ ∃ c path, p = c :: path ∧
        (path = [] ∨ c ∉ [ascii "v", ascii "value"] ∧ c ∉ [ascii "s", ascii "section"]))) ∨
      (o.flat = true ∧ ∃ c path, p = c :: path ∧ r = ⟨s.delMyValue (changeCase o c), [], true⟩) ∨
      (o.flat = false ∧ ∃ c path, p = c :: path ∧ path ≠ [] ∧
        (c ∈ [ascii "v", ascii "value"] ∧ delValue o path s = some r ∨
          c ∉ [ascii "v", ascii "value"] ∧ c ∈ [ascii "s", ascii "section"] ∧ delSection o path s = some r)) := by
  unfold delete at hr
  split at hr
  · cases hr
    exact .inl ⟨rfl, .inl rfl⟩
  next c path =>
    by_cases hflat : o.flat
    · rw [if_pos hflat] at hr
      cases hr
      exact .inr (.inl ⟨hflat, c, path, rfl, rfl⟩)
    · rw [if_neg hflat] at hr
      have hflat : o.flat = false := by simpa using hflat
      by_cases hpath : path = []
      · rw [if_pos hpath] at hr
        cases hr
        exact .inl ⟨rfl, .inr ⟨hflat, c, path, rfl, .inl hpath⟩⟩
      · rw [if_neg hpath] at hr
        by_cases hv : c ∈ [ascii "v", ascii "value"]
        · rw [if_pos hv] at hr
          exact .inr (.inr ⟨hflat, c, path, rfl, hpath, .inl ⟨hv, hr⟩⟩)
        · rw [if_neg hv] at hr
          by_cases hs : c ∈ [ascii "s", ascii "section"]
          · rw [if_pos hs] at hr
            exact .inr (.inr ⟨hflat, c, path, rfl, hpath, .inr ⟨hv, hs, hr⟩⟩)
          · rw [if_neg hs] at hr
            cases hr
            exact .inl ⟨rfl, .inr ⟨hflat, c, path, rfl, .inr ⟨hv, hs⟩⟩⟩

/-- A call of the parser for the section that is reached by these iterators. -/
def atPlace (f : IniSection → Option IniSection) : List Nat → IniSection → Option IniSection
  | [], s => f s
  | id :: place, s =>
    match Assoc.find id s.container with
    | some (.section t) => (atPlace f place t).map fun t => s.replace id (.section t)
    | _ => none

end SectionOf

end YastCore.Ini
