import YastCore.AnyAgent.Basic
import YastCore.Lib.Bounded
import YastCore.Value.Container

/-!
# Parsing by a syntax

`getLine` and the parsers of `AnyAgentComplex.cc`. The syntax is a value: terms for the constructs, strings for
themselves. A parser gets the position by reference and the rest of its state from the agent and from two
statics; nothing bounds its loops, so that it is given here by the results within so many nested calls and turns.
-/

namespace YastCore.AnyAgent

open Bounded Lines Transport YCPValue

/-- What `Description ()` sets, and the functions on values that the parsers call. -/
structure Description where
  mReadOnly : Bool
  mComment : Text
  isFillup : Bool
  /-- `YCPValueRep::toString` -/
  toText : YCPValue → Text
  reader : FloatReader

/-- A pointer into the text of a line: the text from there on. -/
structure Cursor where
  line : ℕ
  text : Text

/-- The statics of the file and the members that parsing changes. The two stacks are one, of pairs, as they are
pushed and popped together. -/
structure ParserState where
  /-- `line_number + 1`: the lines that were gotten, with the calls at the end of the file. -/
  nextLine : ℕ
  got_anything : Bool
  currentMatch : YCPValue
  tuples : List (Text × YCPValue)
  tupleContinue : Bool

namespace ParserState

/-- `tupleName.top () = name` -/
def setName (s : ParserState) (name : Text) : ParserState :=
  match s.tuples with
  | [] => s
  | (_, value) :: tuples => { s with tuples := (name, value) :: tuples }

/-- `tupleValue.top () = value` -/
def setValue (s : ParserState) (value : YCPValue) : ParserState :=
  match s.tuples with
  | [] => s
  | (name, _) :: tuples => { s with tuples := (name, value) :: tuples }

end ParserState

/-- What a parser leaves: its value, null where it fails, the pointer, 0 where there are no more lines, and the
state. -/
structure Parsed where
  value : YCPValue
  line : Option Cursor
  state : ParserState

/-! ### Getting lines -/

namespace Description

/-- Comments and empty lines. -/
def skipsLine (d : Description) (s : Text) : Bool :=
  begins (fun c => d.mComment.contains c) s && !d.isFillup || (cut s).isEmpty

/-- `getLine` for the lines that are left. At their end it gives an empty text, if nothing was gotten since the
last end, or 0. -/
def getLineFrom (d : Description) : List Text → ParserState → Option Cursor × ParserState
  | [], s =>
    if s.got_anything then (none, { s with nextLine := s.nextLine + 1, got_anything := false })
    else (some ⟨s.nextLine, []⟩, { s with nextLine := s.nextLine + 1, got_anything := true })
  | line :: lines, s =>
    if d.skipsLine line then d.getLineFrom lines { s with nextLine := s.nextLine + 1 }
    else (some ⟨s.nextLine, cut line⟩, { s with nextLine := s.nextLine + 1, got_anything := true })

def getLine (d : Description) (alldata : List Text) (s : ParserState) : Option Cursor × ParserState :=
  d.getLineFrom (alldata.drop s.nextLine) s

/-- The head of `parseData`: a new line, where the old one is used up. -/
def nextText (d : Description) (alldata : List Text) (line : Option Cursor) (s : ParserState) :
    Option Cursor × ParserState :=
  match line with
  | some ⟨n, c :: text⟩ => (some ⟨n, c :: text⟩, s)
  | _ => d.getLine alldata s

end Description

/-! ### Constructs -/

/-- What a syntax is for `parseData`. -/
inductive Construct where
  | optional (e : YCPValue)
  | continues (e : YCPValue)
  | choice (elements : List YCPValue)
  | sequence (elements : List YCPValue)
  | list (e separator : YCPValue)
  | tuple (elements : List YCPValue)
  | var (elements : List YCPValue)
  | name (e : YCPValue)
  | value (e : YCPValue)
  | fillup
  | skip
  | current
  | or (elements : List YCPValue)
  | basic (p : BasicParser)
  | named (s : Text) (e : YCPValue)
  | unknown
  /-- Not allowed, or no syntax at all. -/
  | bad
  | undefined

/-- `v->asString ()->value ().c_str ()` -/
def asString : YCPValue → Option Text
  | string s => some (cut s)
  | _ => none

def separatorConstruct (set : YCPValue) : Construct :=
  match asString set with
  | some set => .basic (.separator set)
  | none => .undefined

/-- `String` with one argument or two; it is no syntax with more. -/
def stringConstruct : List YCPValue → Construct
  | [set] =>
    match asString set with
    | some set => .basic (.string set none)
    | none => .undefined
  | [set, stripped] =>
    match asString set, asString stripped with
    | some set, some stripped => .basic (.string set (some stripped))
    | _, _ => .undefined
  | _ => .bad

def isLower (c : UInt8) : Bool := 97 ≤ c && c ≤ 122

/-- The tests of `parseData` on a term, in their order. -/
def Description.termConstruct (d : Description) (inTuple : Bool) (s : Text) (args : List YCPValue) : Construct :=
  let size := args.length
  let arg := args.headD null
  if s = ascii "Optional" ∧ 0 < size then .optional arg
  else if s = ascii "Continue" ∧ 0 < size then .continues arg
  else if s = ascii "Choice" ∧ 0 < size then .choice args
  else if s = ascii "Sequence" ∧ 0 < size then .sequence args
  else if s = ascii "List" ∧ size = 2 then .list arg (args.getD 1 null)
  else if s = ascii "Tuple" ∧ 0 < size then .tuple args
  else if s = ascii "Var" ∧ 0 < size then .var args
  else if s = ascii "Name" ∧ size = 1 then (if d.mReadOnly then .name arg else .bad)
  else if s = ascii "Value" ∧ size = 1 then .value arg
  else if d.isFillup ∧ s = ascii "Fillup" ∧ size = 0 ∧ inTuple then .fillup
  else if s = ascii "Skip" then .skip
  else if s = ascii "Match" then .current
  else if s = ascii "Separator" ∧ size = 1 then separatorConstruct arg
  else if s = ascii "Whitespace" then .basic (.separator (ascii " \t"))
  else if s = ascii "String" ∧ 0 < size then stringConstruct args
  else if s = ascii "Or" ∧ 0 < size then .or args
  else if s = ascii "Number" then .basic .number
  else if s = ascii "Hexval" then .basic .hexval
  else if s = ascii "Boolean" then .basic .boolean
  else if s = ascii "Float" then .basic (.float d.reader)
  else if s = ascii "Ip4Number" then .basic .ip4Number
  else if s = ascii "Hostname" then .basic .hostname
  else if s = ascii "Username" then .basic .username
  else if begins isLower s ∧ inTuple ∧ size = 1 then .named s arg
  else .unknown

def Description.construct (d : Description) (inTuple : Bool) : YCPValue → Construct
  | term s args => d.termConstruct inTuple s args
  | string s => .basic (.verbose (cut s))
  | _ => .bad

/-- The match and the action, null where there is none, of an element of `Choice`. -/
def alternative : YCPValue → Option (YCPValue × YCPValue)
  | .list [choice] => some (choice, null)
  | .list [choice, action] => some (choice, action)
  | _ => none

/-- The syntaxes that a construct is made of. -/
def Construct.parts : Construct → List YCPValue
  | .optional e | .continues e | .name e | .value e | .named _ e => [e]
  | .choice elements => elements.flatMap fun element => ((alternative element).map fun a => [a.1, a.2]).getD []
  | .sequence elements | .tuple elements | .var elements | .or elements => elements
  | .list e separator => [e, separator]
  | _ => []

/-! ### The parsers -/

/-- `parseData`, as the parsers for the parts call it. -/
abbrev Parser := Option Cursor → YCPValue → Bool → ParserState → Answer Parsed

section

variable (parse : Parser)

/-- The loop of `parseChoice` from an alternative on. -/
def parseChoice (line : Option Cursor) (optional : Bool) : List YCPValue → ParserState → Answer Parsed
  | [], s => pure ⟨null, line, s⟩
  | element :: rest, s =>
    match alternative element with
    | none => pure ⟨null, line, s⟩
    | some (choice, action) => do
      let r ← parse line choice false s
      let s := { r.state with currentMatch := r.value }
      if r.value.isNull then parseChoice line optional rest s
      else if action.isNull then pure ⟨r.value, r.line, s⟩
      else parse r.line action optional s

/-- The loops of `parseSequence` and of `Var`, which stop at the first null: the last value. -/
def parseEach (optional : Bool) : List YCPValue → Parsed → Answer Parsed
  | [], last => pure last
  | e :: elements, last => do
    let r ← parse last.line e optional last.state
    if r.value.isNull then pure r else parseEach optional elements r

/-- `string (lstart, line - lstart)`, which means nothing where the pointers are not into one line. -/
def textBetween (lstart : Cursor) (line : Option Cursor) : Option Text :=
  match line with
  | some c =>
    if c.line = lstart.line then some (lstart.text.take (lstart.text.length - c.text.length)) else none
  | none => none

def parseSequence (lstart : Cursor) (elements : List YCPValue) (optional : Bool) (s : ParserState) :
    Answer Parsed := do
  let r ← parseEach parse optional elements ⟨null, some lstart, s⟩
  if r.value.isNull then pure r
  else
    match textBetween lstart r.line with
    | some text => pure { r with value := string text }
    | none => .undefined

/-- The loop of `Or` from an alternative on. -/
def parseOr (line : Option Cursor) (optional : Bool) : List YCPValue → Option Cursor → ParserState → Answer Parsed
  | [], _, s => pure ⟨void, line, s⟩
  | e :: elements, ltry, s => do
    let r ← parse ltry e (elements.isEmpty && optional) s
    if r.value.isNull then parseOr line optional elements r.line r.state else pure r

/-- The loop of `parseList`. -/
def parseList (e separator : YCPValue) :
    ℕ → Option Cursor → Bool → List YCPValue → ParserState → Answer Parsed
  | 0, _, _, _, _ => .pending
  | n + 1, line, optional, elements, s => do
    let vl ← parse line e optional s
    if vl.value.isNull then pure { vl with value := .list elements }
    else
      let elements := if vl.value.isVoid then elements else elements ++ [vl.value]
      let vs ← parse vl.line separator false vl.state
      if vs.value.isNull then pure { vs with value := .list elements }
      else parseList e separator n vs.line false elements vs.state

/-- A name and a value at the top go into the map. -/
def takeEntry (entries : List (YCPValue × YCPValue)) (s : ParserState) :
    List (YCPValue × YCPValue) × ParserState :=
  match s.tuples with
  | (name, value) :: tuples =>
    if name ≠ [] ∧ value.isNull = false ∧ value.isVoid = false then
      (mapInsert (string name) value entries, { s with tuples := ([], null) :: tuples })
    else (entries, s)
  | [] => (entries, s)

/-- The loop of `parseTuple` with the elements that are left in this turn. -/
def parseTuple (elements : List YCPValue) :
    ℕ → Option Cursor → List YCPValue → Bool → List (YCPValue × YCPValue) → ParserState → Answer Parsed
  | _, line, [], _, entries, s => pure ⟨map entries, line, s⟩
  | 0, _, _ :: _, _, _, _ => .pending
  | n + 1, line, e :: rest, optional, entries, s => do
    let r ← parse line e optional s
    if r.value.isNull then pure { r with value := if optional then map entries else null }
    else
      let taken := takeEntry entries r.state
      if taken.2.tupleContinue && rest.isEmpty then
        parseTuple elements n r.line elements true taken.1 { taken.2 with tupleContinue := false }
      else parseTuple elements n r.line rest optional taken.1 taken.2

end

namespace Description

/-- The loop of `Fillup`. -/
def fillupLoop (d : Description) (alldata : List Text) : ℕ → Text → Option Cursor → ParserState → Answer Parsed
  | 0, _, _, _ => .pending
  | n + 1, fillup, some c, s =>
    if d.mComment.contains (c.text.headD 0) then
      d.fillupLoop alldata n (fillup ++ c.text) (d.getLine alldata s).1 (d.getLine alldata s).2
    else pure ⟨string fillup, some c, s⟩
  | _ + 1, fillup, none, s => pure ⟨string fillup, none, s⟩

def key4Fillup : Text := ascii "`FILLUP"

/-- `Name ()` takes a string for itself and another value for its text. -/
def nameText (d : Description) : YCPValue → Text
  | string name => name
  | v => d.toText v

/-- The branches of `parseData`. -/
def parseConstruct (d : Description) (alldata : List Text) (parse : Parser) (n : ℕ) (line : Cursor) (optional : Bool)
    (s : ParserState) : Construct → Answer Parsed
  | .optional e => do
    let ov ← parse (some line) e true s
    pure { ov with value := if ov.value.isNull then void else ov.value }
  | .continues e => do
    let tv ← parse (some line) e false s
    pure { tv with state := if tv.value.isNull then tv.state else { tv.state with tupleContinue := true } }
  | .choice elements => parseChoice parse (some line) optional elements s
  | .sequence elements => parseSequence parse line elements optional s
  | .list e separator => parseList parse e separator n (some line) optional [] s
  | .tuple elements => do
    let tv ← parseTuple parse elements n (some line) elements optional []
      { s with tuples := ([], null) :: s.tuples, tupleContinue := false }
    pure { tv with state := { tv.state with tuples := tv.state.tuples.tail } }
  | .var elements => do
    let r ← parseEach parse optional elements ⟨null, some line, s⟩
    pure { r with value := void }
  | .name e => do
    let tn ← parse (some line) e false s
    pure { tn with state := if tn.value.isNull then tn.state else tn.state.setName (d.nameText tn.value) }
  | .value e => do
    let tv ← parse (some line) e false s
    pure { tv with state := if tv.value.isNull then tv.state else tv.state.setValue tv.value }
  | .fillup => do
    let r ← d.fillupLoop alldata n [] (some line) s
    pure { r with state := (r.state.setName key4Fillup).setValue r.value }
  | .skip => pure ⟨void, some line, s⟩
  | .current => pure ⟨s.currentMatch, some line, s⟩
  | .or elements => parseOr parse (some line) optional elements (some line) s
  | .basic p => pure ⟨(p.parse line.text optional).1, some ⟨line.line, (p.parse line.text optional).2⟩, s⟩
  | .named name e => do
    let r ← parse (some line) e optional (s.setName name)
    pure { r with state := r.state.setValue r.value }
  | .unknown => pure ⟨void, some line, s⟩
  | .bad => pure ⟨null, some line, s⟩
  | .undefined => .undefined

/-- `parseData`, if no more calls than these are nested and no loop takes more turns. -/
def parseData (d : Description) (alldata : List Text) : ℕ → Parser
  | 0, _, _, _, _ => .pending
  | n + 1, line, syn, optional, s =>
    match d.nextText alldata line s with
    | (none, s) => pure ⟨null, none, s⟩
    | (some line, s) =>
      d.parseConstruct alldata (d.parseData alldata n) n line optional s (d.construct (!s.tuples.isEmpty) syn)

end Description

/-- A description without comments. -/
def plainDescription : Description where
  mReadOnly := true
  mComment := []
  isFillup := false
  toText _ := []
  reader := ⟨fun _ => symbol [], fun _ => rfl, fun _ => rfl⟩

/-- The state before the first line is gotten, of an agent that has not parsed anything. -/
def freshState : ParserState := ⟨0, false, null, [], false⟩

end YastCore.AnyAgent
