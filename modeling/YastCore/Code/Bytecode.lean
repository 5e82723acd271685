import YastCore.Code.Basic
import YastCore.Value.RoundTrip

/-!
# Code as bytecode

The namespace stack, the symbol entries and the code trees of `Bytecode.cc`, with the `toStream`
methods and the stream constructors of the code classes. The writer and the reader are translated
one by one; that they agree is proved elsewhere.
-/

namespace YastCore

open Codec

/-! ### The namespace stack -/

structure NamespaceEntry where
  name_space : NsId
  with_xrefs : Bool

/-- `m_namespace_nesting_array`, outermost first; what is below `tare` belongs to the files whose
reading is suspended. -/
structure NamespaceStack where
  nesting : List NamespaceEntry
  tare : Nat

namespace NamespaceStack

/-- The part that the ids count. -/
def above (s : NamespaceStack) : List NamespaceEntry := s.nesting.drop s.tare

/-- The id of a namespace, an `int`: that of the outermost entry for it. -/
def namespaceId (s : NamespaceStack) (ns : NsId) : Option Nat :=
  (s.above.findIdx? fun e => e.name_space = ns).filter fun id => id < 2 ^ 31

def namespacePtr (s : NamespaceStack) (id : Nat) : Option NsId :=
  s.above[id]?.map NamespaceEntry.name_space

def pushNamespace (s : NamespaceStack) (ns : NsId) (with_xrefs : Bool) : NamespaceStack :=
  { s with nesting := s.nesting ++ [⟨ns, with_xrefs⟩] }

/-- The entries that `popNamespace` takes off: the top one, if it is for this namespace. -/
def popped (s : NamespaceStack) (ns : NsId) : List NamespaceEntry :=
  match s.above.getLast? with
  | some e => if e.name_space = ns then [e] else []
  | none => []

/-- The entries that `popUptoNamespace` takes off, top first: all of them if the namespace is not
there. -/
def poppedUpto (s : NamespaceStack) (ns : NsId) : List NamespaceEntry :=
  let inner := s.above.reverse.takeWhile fun e => e.name_space ≠ ns
  s.above.reverse.take (inner.length + 1)

def dropTop (s : NamespaceStack) (n : Nat) : NamespaceStack :=
  { s with nesting := s.nesting.take (s.nesting.length - n) }

def popNamespace (s : NamespaceStack) (ns : NsId) : NamespaceStack :=
  s.dropTop (s.popped ns).length

def popUptoNamespace (s : NamespaceStack) (ns : NsId) : NamespaceStack :=
  s.dropTop (s.poppedUpto ns).length

/-- `tareStack`, with the id that `untareStack` takes. -/
def tareStack (s : NamespaceStack) : Nat × NamespaceStack :=
  (s.nesting.length - s.tare, { s with tare := s.nesting.length })

def untareStack (s : NamespaceStack) (tareId : Nat) : NamespaceStack :=
  { s with tare := s.tare - tareId }

end NamespaceStack

namespace Bytecode

/-! ### Writing -/

inductive WriteFault where
  /-- an entry of a namespace that is not on the stack -/
  | abort
  | nullHandle
  /-- the stream is left in its failed state -/
  | failed
deriving DecidableEq, Repr

abbrev Writer := Exec WriteFault NamespaceStack Bytes

/-- What the compiler has in memory: the symbol entries, for every imported module the positions of
the symbols that are used from it, and the writers that are not modelled here. -/
structure WriterEnv where
  isprint : UInt8 → Bool
  symbol : EntryRef → Symbol
  symbol_name_lt : ∀ e, (symbol e).name.text.length + 1 < 2 ^ 32
  usage : Text → List Nat
  usage_length_lt : ∀ m, (usage m).length < 2 ^ 31
  writeType : TypeId → Bytes
  writeDeclaration : DeclId → Bytes
  writeQuoted : CodePtr → Option Bytes

def writeCharp (t : CText) : Bytes := writeString t.text

def writeInt (i : Int32) : Bytes := writeInt32 i.toUInt32.toNat

def writeOfOption (w : Option Bytes) : Writer :=
  match w with
  | some w => return w
  | none => throw .failed

section Write

variable (E : WriterEnv)

/-- The position of an entry. The used symbols of a module have been given negative ones. -/
def position (e : EntryRef) : Nat :=
  match e.ns with
  | .block _ => e.position
  | .module m =>
    match (E.usage m).idxOf? e.position with
    | some k => ((-(k : Int) - 1) % 2 ^ 32).toNat
    | none => e.position

def writeEntry (e : EntryRef) : Writer := do
  let s ← get
  match s.namespaceId e.ns with
  | some id => return writeInt32 id ++ writeInt32 (position E e)
  | none => throw .abort

def writePointChain (e : EntryRef) (line : UInt32) : List (EntryRef × UInt32) → Writer
  | [] => do
    let we ← writeEntry E e
    return we ++ (writeInt32 line.toNat ++ writeBool false)
  | (e', line') :: outer => do
    let we ← writeEntry E e
    let wo ← writePointChain e' line' outer
    return we ++ (writeInt32 line.toNat ++ (writeBool true ++ wo))

def writePoint (p : Point) : Writer := writePointChain E p.entry p.line p.outer

/-- `YSymbolEntry::toStream`. -/
def writeSymbol (position : Nat) (s : Symbol) : Bytes :=
  writeBool s.global ++ (writeInt32 position ++ (writeCharp s.name ++
    (writeInt32 s.category.code ++ E.writeType s.type)))

/-- The symbols of a block in their order. -/
def symbolsOf (info : BlockInfo) : List Symbol :=
  (List.range info.symbolCount).map fun i => E.symbol ⟨info.ns, i⟩

def writeSymbols (info : BlockInfo) : Bytes :=
  (List.range info.symbolCount).flatMap fun i => writeSymbol E i (E.symbol ⟨info.ns, i⟩)

/-- `SymbolTable::writeUsage`. -/
def writeUsage (m : Text) : Bytes :=
  writeInt32 (E.usage m).length ++ (E.usage m).flatMap fun p =>
    writeCharp (E.symbol ⟨.module m, p⟩).name ++ E.writeType (E.symbol ⟨.module m, p⟩).type

/-- `YConst::toStream`: the value without its tag. -/
def writeConst (kind : ConstKind) (value : YCPValue) : Writer :=
  match value with
  | .null => return UInt8.ofNat kind.code :: writeBool false
  | .entry e => do
    let we ← writeEntry E e
    return UInt8.ofNat kind.code :: (writeBool true ++ we)
  | v => do
    let w ← writeOfOption (writeValue E.isprint E.writeQuoted (fun _ => none) v)
    return UInt8.ofNat kind.code :: (writeBool true ++ w.tail)

def writeCases : List (YCPValue × Int32) → Writer
  | [] => return []
  | (v, index) :: cases => do
    let wv ← writeOfOption (writeValue E.isprint E.writeQuoted (fun _ => none) v)
    let wc ← writeCases cases
    return wv ++ (writeInt index ++ wc)

/-- A declaration is written only if there are parameters. -/
def needDeclaration (declaration : YCode) : Bool :=
  match declaration.blockInfo with
  | some info => 0 < info.symbolCount
  | none => false

/-- The namespace of a declaration that is kept accessible while the definition is written. -/
def declarationNs (declaration : YCode) : Option NsId :=
  match declaration.blockInfo with
  | some info => if 0 < info.symbolCount then some info.ns else none
  | none => none

def pushOptional (ns : Option NsId) (s : NamespaceStack) : NamespaceStack :=
  match ns with
  | some ns => s.pushNamespace ns false
  | none => s

def popOptional (ns : Option NsId) (s : NamespaceStack) : NamespaceStack :=
  match ns with
  | some ns => s.popNamespace ns
  | none => s

/-- A count, and what is counted. -/
def writeCounted (count : Nat) (items : Writer) : Writer := do
  let w ← items
  return writeInt32 count ++ w

def writeIf (b : Bool) (w : Writer) : Writer := if b then w else pure []

/-- `YFunction::toStream`: the prototype. -/
def writeFunction (need_declaration : Bool) (declaration : Writer) : Writer := do
  let w ← writeIf need_declaration declaration
  return 15 :: (writeBool need_declaration ++ w)

/-- `YFunction::toStreamDefinition`. -/
def writeDefinition (need_definition : Bool) (ns : Option NsId) (definition : Writer) : Writer :=
  if need_definition then do
    modify (pushOptional ns)
    let w ← definition
    modify (popOptional ns)
    return writeBool true ++ w
  else
    return writeBool false

mutual

/-- `YCode::toStream`. -/
def toStream : YCode → Writer
  | .null => throw .nullHandle
  | .node n => toStreamNode n

def toStreamNode : Node YCode → Writer
  | .yConst kind value => writeConst E kind value
  | .ycLocale locale domain => return 14 :: (writeCharp locale ++ writeCharp domain)
  | .ycFunction declaration _ => writeFunction (needDeclaration declaration) (toStream declaration)
  | .yePropagate source target value => do
    let w ← toStream value
    return 16 :: (E.writeType source ++ (E.writeType target ++ w))
  | .yeUnary decl arg => do
    let d ← decl.elim (throw .nullHandle) pure
    let w ← toStream arg
    return 17 :: (E.writeDeclaration d ++ w)
  | .yeBinary decl arg1 arg2 => do
    let d ← decl.elim (throw .nullHandle) pure
    let w1 ← toStream arg1
    let w2 ← toStream arg2
    return 18 :: (E.writeDeclaration d ++ (w1 ++ w2))
  | .yeTriple expr ifTrue ifFalse => do
    let w ← toStream expr
    let w1 ← toStream ifTrue
    let w2 ← toStream ifFalse
    return 19 :: (w ++ (w1 ++ w2))
  | .yeCompare left op right => do
    let w1 ← toStream left
    let w2 ← toStream right
    return 20 :: (w1 ++ (op :: w2))
  | .yeLocale singular plural count domain => do
    let w ← toStream count
    return 21 :: (writeCharp singular ++ (writeCharp plural ++ (w ++ writeCharp domain)))
  | .yeList elements => do
    let w ← writeCounted elements.length (toStreamList elements)
    return 22 :: w
  | .yeMap entries => do
    let w ← writeCounted entries.length (toStreamEntries entries)
    return 23 :: w
  | .yeTerm name parameters => do
    let w ← writeCounted parameters.length (toStreamList parameters)
    return 24 :: (writeCharp name ++ w)
  | .yeIs type expr => do
    let w ← toStream expr
    return 25 :: (E.writeType type ++ w)
  | .yeBracket var arg default resultType => do
    let w1 ← toStream var
    let w2 ← toStream arg
    let w3 ← toStream default
    let type ← resultType.elim (throw .nullHandle) pure
    return 26 :: (w1 ++ (w2 ++ (w3 ++ E.writeType type)))
  | .yeBlock info table point statements => do
    modify fun s => s.pushNamespace info.ns false
    let wt ← writeIf (info.hasTable) (writeCounted table.length (toStreamTable table))
    let wp ← writePoint E point
    let ws ← writeCounted statements.length (toStreamList statements)
    modify fun s => s.popUptoNamespace info.ns
    return 27 :: (writeCharp info.name ++ (writeInt32 info.kind.code ++
      (writeInt32 info.symbolCount ++ (writeSymbols E info ++ (wt ++ (wp ++ ws))))))
  | .yeReturn expr => do
    let w ← toStream expr
    return 28 :: w
  | .yeVariable entry => do
    let w ← writeEntry E entry
    return 29 :: w
  | .yeBuiltin type decl parameterblock parameters => do
    let ty ← type.elim (throw .nullHandle) pure
    let d ← decl.elim (throw .nullHandle) pure
    let wb ← toStreamOptional parameterblock
    modify (pushOptional (parameterblock.blockInfo.map BlockInfo.ns))
    let w ← writeCounted parameters.length (toStreamList parameters)
    modify (popOptional (parameterblock.blockInfo.map BlockInfo.ns))
    return 30 :: (E.writeType ty ++ (E.writeDeclaration d ++ (wb ++ w)))
  | .yeFunction entry parameters => do
    let we ← writeEntry E entry
    let w ← writeCounted parameters.length (toStreamList parameters)
    return 31 :: (we ++ w)
  | .yeReference entry => do
    let w ← writeEntry E entry
    return 32 :: w
  | .yeFunctionPointer entry parameters => do
    let we ← writeEntry E entry
    let w ← writeCounted parameters.length (toStreamList parameters)
    return 33 :: (we ++ w)
  | .ysTypedef line name type =>
    return 35 :: (writeInt32 line.toNat ++ (writeCharp name ++ E.writeType type))
  | .ysVariable line entry code => do
    let we ← writeEntry E entry
    let w ← toStream code
    return 36 :: (writeInt32 line.toNat ++ (we ++ w))
  | .ysFunction line entry declaration definition => do
    let we ← writeEntry E entry
    let wf ← writeIf (!(E.symbol entry).global)
      (writeFunction (needDeclaration declaration) (toStream declaration))
    let wd ← writeDefinition (!definition.isNull) (declarationNs declaration) (toStream definition)
    return 37 :: (writeInt32 line.toNat ++ (we ++ (wf ++ wd)))
  | .ysAssign line entry code => do
    let we ← writeEntry E entry
    let w ← toStream code
    return 38 :: (writeInt32 line.toNat ++ (we ++ w))
  | .ysBracket line entry arg code => do
    let we ← writeEntry E entry
    let w1 ← toStream arg
    let w2 ← toStream code
    return 39 :: (writeInt32 line.toNat ++ (we ++ (w1 ++ w2)))
  | .ysIf line condition ifTrue ifFalse => do
    let w ← toStream condition
    let w1 ← toStreamOptional ifTrue
    let w2 ← toStreamOptional ifFalse
    return 40 :: (writeInt32 line.toNat ++ (w ++ (w1 ++ w2)))
  | .ysWhile line condition loop => do
    let w ← toStream condition
    let wl ← toStreamOptional loop
    return 41 :: (writeInt32 line.toNat ++ (w ++ wl))
  | .ysDo line condition loop => do
    let wl ← toStreamOptional loop
    let w ← toStream condition
    return 42 :: (writeInt32 line.toNat ++ (wl ++ w))
  | .ysRepeat line condition loop => do
    let wl ← toStreamOptional loop
    let w ← toStream condition
    return 43 :: (writeInt32 line.toNat ++ (wl ++ w))
  | .ysExpression line expr => do
    let w ← toStream expr
    return 44 :: (writeInt32 line.toNat ++ w)
  | .ysReturn line value => do
    let w ← toStreamOptional value
    return 45 :: (writeInt32 line.toNat ++ w)
  | .ysBreak line => return 46 :: writeInt32 line.toNat
  | .ysContinue line => return 47 :: writeInt32 line.toNat
  | .ysTextdomain line domain => return 48 :: (writeInt32 line.toNat ++ writeCharp domain)
  | .ysInclude line filename skipped =>
    return 49 :: (writeInt32 line.toNat ++ (writeCharp filename ++ writeBool skipped))
  | .ysFilename line filename => return 50 :: (writeInt32 line.toNat ++ writeCharp filename)
  | .ysImport line name => do
    modify fun s => s.pushNamespace (.module name.text) false
    return 51 :: (writeInt32 line.toNat ++ (writeCharp name ++ writeUsage E name.text))
  | .ysBlock line block => do
    let w ← toStream block
    return 52 :: (writeInt32 line.toNat ++ w)
  | .ysSwitch line condition cases defaultcase block => do
    let w ← toStream condition
    let wc ← writeCounted cases.length (writeCases E cases)
    let wb ← toStream block
    return 53 :: (writeInt32 line.toNat ++ (w ++ (wc ++ (writeInt defaultcase ++ wb))))

/-- A flag, and the code if there is some. -/
def toStreamOptional : YCode → Writer
  | .null => return writeBool false
  | .node n => do
    let w ← toStreamNode n
    return writeBool true ++ w

def toStreamList : List YCode → Writer
  | [] => return []
  | c :: l => do
    let w ← toStream c
    let w' ← toStreamList l
    return w ++ w'

def toStreamEntries : List (YCode × YCode) → Writer
  | [] => return []
  | (k, v) :: l => do
    let wk ← toStream k
    let wv ← toStream v
    let w ← toStreamEntries l
    return wk ++ (wv ++ w)

/-- The table entries of a module, with the prototypes of its global functions. -/
def toStreamTable : List (TableItem YCode) → Writer
  | [] => return []
  | ⟨entry, point, prototype⟩ :: l => do
    let we ← writeEntry E entry
    let wp ← writePoint E point
    let wf ← writeIf ((E.symbol entry).category = .c_function && (E.symbol entry).global)
      (toStream prototype)
    let w ← toStreamTable l
    return we ++ (wp ++ (wf ++ w))

end

variable {E}

/-- All code takes at least a byte. -/
lemma toStreamNode_ne_nil {n : Node YCode} {w : Bytes} {s s' : NamespaceStack}
    (h : toStreamNode E n s = .ok (w, s')) : w ≠ [] := by
  cases n with
  | yConst kind v =>
    cases v <;>
      simp only [toStreamNode, writeConst, Exec.bind_ok_iff, Exec.pure_ok_iff] at h <;> grind
  | _ =>
    simp only [toStreamNode, writeFunction, Exec.bind_ok_iff, Exec.pure_ok_iff] at h
    grind

end Write

/-! ### Reading -/

/-- The objects that the reader makes: how many blocks, the symbols of each and the code that
function entries have. -/
structure World where
  next : Nat
  symbols : Nat → List Symbol
  code : EntryRef → YCode

namespace World

def newBlock (w : World) : World :=
  { w with next := w.next + 1, symbols := Function.update w.symbols w.next [] }

def addSymbol (w : World) (id : Nat) (s : Symbol) : World :=
  { w with symbols := Function.update w.symbols id (w.symbols id ++ [s]) }

end World

structure ReaderState where
  stack : NamespaceStack
  /-- for the table of a namespace the vectors of references into it that are open, the last one first -/
  xrefs : NsId → List (List Nat)
  world : World

/-- What the reader finds: the modules that can be imported with their symbols and tables, and the
readers that are not modelled here. -/
structure ReaderEnv where
  modules : Text → Option (List Symbol)
  find : Text → Text → Option Nat
  matchType : TypeId → TypeId → Bool
  readType : ByteReader ReaderState TypeId
  readDeclaration : ByteReader ReaderState (Option DeclId)
  readQuoted : ByteReader ReaderState CodePtr

abbrev CodeReader := ByteReader ReaderState

namespace ReaderState

def openXRefs (st : ReaderState) (ns : NsId) : ReaderState :=
  { st with xrefs := Function.update st.xrefs ns ([] :: st.xrefs ns) }

def closeXRefs (xrefs : NsId → List (List Nat)) (e : NamespaceEntry) : NsId → List (List Nat) :=
  if e.with_xrefs then Function.update xrefs e.name_space (xrefs e.name_space).tail else xrefs

def pushNamespace (st : ReaderState) (ns : NsId) (with_xrefs : Bool) : ReaderState :=
  let st' := { st with stack := st.stack.pushNamespace ns with_xrefs }
  if with_xrefs then st'.openXRefs ns else st'

def popNamespace (st : ReaderState) (ns : NsId) : ReaderState :=
  { st with
    stack := st.stack.popNamespace ns
    xrefs := (st.stack.popped ns).foldl closeXRefs st.xrefs }

def popUptoNamespace (st : ReaderState) (ns : NsId) : ReaderState :=
  { st with
    stack := st.stack.popUptoNamespace ns
    xrefs := (st.stack.poppedUpto ns).foldl closeXRefs st.xrefs }

def pushOptional (ns : Option NsId) (st : ReaderState) : ReaderState :=
  match ns with
  | some ns => st.pushNamespace ns false
  | none => st

def popOptional (ns : Option NsId) (st : ReaderState) : ReaderState :=
  match ns with
  | some ns => st.popNamespace ns
  | none => st

/-- `SymbolTable::xref` on success: the entry goes to the vector opened last. -/
def addXRef (st : ReaderState) (ns : NsId) (p : Nat) : ReaderState :=
  { st with
    xrefs := Function.update st.xrefs ns
      (((st.xrefs ns).headD [] ++ [p]) :: (st.xrefs ns).tail) }

def getXRef (st : ReaderState) (ns : NsId) (position : Nat) : Option EntryRef :=
  ((st.xrefs ns).head?.bind fun refs => refs[position]?).map fun p => ⟨ns, p⟩

end ReaderState

/-- `readCharp`. -/
def readCharp : CodeReader CText := do
  let len ← readInt32
  if len + 1 = 2 ^ 32 then
    throw .allocation
  else
    let buf ← takeN .endOfStream len
    return CText.ofBuffer buf

def readLine : CodeReader UInt32 := do
  return UInt32.ofNat (← readInt32)

def readInt : CodeReader Int32 := do
  return (UInt32.ofNat (← readInt32)).toInt32

section Read

variable (L : ReaderEnv)

/-- The symbol entries of a namespace. -/
def symbolsIn (w : World) : NsId → List Symbol
  | .block id => w.symbols id
  | .module m => (L.modules m).getD []

def symbolAt (w : World) (e : EntryRef) : Option Symbol := (symbolsIn L w e.ns)[e.position]?

/-- `readEntry`. A block has no table for references to another module. -/
def readEntry : CodeReader (Option EntryRef) := do
  let id ← readInt32
  let position ← readInt32
  let st ← getState
  if 2 ^ 31 ≤ id then
    return none
  else
    match st.stack.namespacePtr id with
    | none => return none
    | some ns =>
      if 2 ^ 31 ≤ position then
        match ns with
        | .block _ => throw .exit
        | .module m => return st.getXRef (.module m) (2 ^ 32 - 1 - position)
      else if position < (symbolsIn L st.world ns).length then
        return some ⟨ns, position⟩
      else
        return none

/-- An entry that is used at once, or kept in code that no check guards later. -/
def readEntryPtr : CodeReader EntryRef := do
  match ← readEntry L with
  | some e => return e
  | none => throw .nullHandle

def readPointChain : Nat → CodeReader (List (EntryRef × UInt32))
  | 0 => throw .outOfFuel
  | fuel + 1 => do
    let e ← readEntryPtr L
    let line ← readLine
    if ← readBool then
      let outer ← readPointChain fuel
      return (e, line) :: outer
    else
      return [(e, line)]

/-- The stream constructor of `Point`. -/
def readPoint : CodeReader Point := do
  match ← (fun s => readPointChain L (s.1.length + 1) s : CodeReader (List (EntryRef × UInt32))) with
  | (e, line) :: outer => return ⟨e, line, outer⟩
  | [] => throw .nullHandle

/-- The stream constructor of `YSymbolEntry`, added to its block. -/
def readSymbol (id : Nat) : CodeReader Unit := do
  let global ← readBool
  let _ ← readInt32
  let name ← readCharp
  let category ← readInt32
  let type ← L.readType
  match Category.all[category]? with
  | some category =>
    modifyState fun st => { st with world := st.world.addSymbol id ⟨global, name, category, type⟩ }
  | none => throw .invalid

/-- `YSymbolEntry::setCode`. -/
def codeSet (w : World) (e : EntryRef) (c : YCode) : World :=
  match (symbolAt L w e).map Symbol.category with
  | some .c_builtin => w
  | some .c_module => w
  | _ => { w with code := Function.update w.code e c }

def setCode (e : EntryRef) (c : YCode) : CodeReader Unit :=
  modifyState fun st => { st with world := codeSet L st.world e c }

/-- The value of a constant is read by its class, as `readValue` does after the tag. -/
def readPayload (tag : UInt8) : CodeReader YCPValue := fun s =>
  readValue L.readQuoted (tag :: s.1, s.2)

/-- The stream constructor of `YConst`. -/
def readConst (kind : ConstKind) : CodeReader YCode := do
  if ← readBool then
    match kind with
    | .ycEntry => return .node (.yConst kind (.entry (← readEntryPtr L)))
    | _ =>
      match kind.valuetype with
      | some tag => return .node (.yConst kind (← readPayload L tag))
      | none => return .node (.yConst kind .null)
  else
    return .node (.yConst kind .null)

/-- `m_cases[cv] = index`. -/
def caseInsert (v : YCPValue) (index : Int32) : List (YCPValue × Int32) → List (YCPValue × Int32)
  | [] => [(v, index)]
  | (k, i) :: cases =>
    if YCPValue.keyLess k v then (k, i) :: caseInsert v index cases
    else if YCPValue.keyLess v k then (v, index) :: (k, i) :: cases
    else (k, index) :: cases

def readCase (cases : List (YCPValue × Int32)) : CodeReader (List (YCPValue × Int32)) := do
  let v ← readValue L.readQuoted
  if v.isNull then
    throw .invalid
  else
    let index ← readInt
    return caseInsert v index cases

/-- One reference of an import. -/
def readXRef (m : Text) : CodeReader Unit := do
  let sname ← readCharp
  let stype ← L.readType
  match L.find m sname.text with
  | none => throw .invalid
  | some p =>
    modifyState fun st => st.addXRef (.module m) p
    match ((L.modules m).getD [])[p]? with
    | none => throw .nullHandle
    | some s => if L.matchType s.type stype then return () else throw .invalid

/-- The stream constructor of `YSImport`; the count is an `int`. -/
def readImport (line : UInt32) : CodeReader YCode := do
  let mname ← readCharp
  match L.modules mname.text with
  | none => throw .invalid
  | some _ =>
    modifyState fun st => st.pushNamespace (.module mname.text) true
    let count ← readInt32
    countedLoop (fun _ _ => readXRef L mname.text) 0 (if count < 2 ^ 31 then count else 0) ()
    return .node (.ysImport line mname)

section Inner

variable (readCode : CodeReader YCode)

/-- `readYCodelist`, with whether it came to its end. -/
def readYCodelist : Nat → List YCode → CodeReader (Bool × List YCode)
  | 0, l => return (true, l)
  | count + 1, l => do
    let c ← readCode
    if c.isNull then return (false, l) else readYCodelist count (l ++ [c])

def readOptional : CodeReader YCode := do
  if ← readBool then readCode else return .null

def readMapEntries : Nat → List (YCode × YCode) → CodeReader (List (YCode × YCode))
  | 0, l => return l
  | count + 1, l => do
    let key ← readCode
    let value ← readCode
    readMapEntries count (l ++ [(key, value)])

/-- The parameters of a call; `none` if one of them cannot be read. -/
def readParameters (count : Nat) : CodeReader (Option (List YCode)) := do
  let (ok, l) ← readYCodelist readCode count []
  return if ok then some l else none

/-- The stream constructor of `YFunction`. -/
def readFunction : CodeReader YCode := do
  return .node (.ycFunction (← readOptional readCode) .null)

/-- The stream constructor of `TableEntry`. -/
def readTableItem : CodeReader (TableItem YCode) := do
  let entry ← readEntryPtr L
  let point ← readPoint L
  let st ← getState
  if (symbolAt L st.world entry).map Symbol.category = some .c_function then
    let prototype ← readCode
    if prototype.isNull then
      throw .nullHandle
    else
      setCode L entry prototype
      return ⟨entry, point, prototype⟩
  else
    return ⟨entry, point, .null⟩

def readTable : Nat → List (TableItem YCode) → CodeReader (List (TableItem YCode))
  | 0, l => return l
  | count + 1, l => do
    let item ← readTableItem L readCode
    readTable count (l ++ [item])

/-- The count of table entries is an `int`. -/
def readBlockTable (hasTable : Bool) : CodeReader (List (TableItem YCode)) :=
  if hasTable then do
    let tcount ← readInt32
    readTable L readCode (if tcount < 2 ^ 31 then tcount else 0) []
  else
    pure []

def readStatements : Nat → List YCode → CodeReader (List YCode)
  | 0, l => return l
  | count + 1, l => do
    let c ← readCode
    if c.isStatement then readStatements count (l ++ [c]) else throw .invalid

/-- The stream constructor of `YBlock`. -/
def readBlock : CodeReader YCode := do
  let name ← readCharp
  let kind ← readInt32
  match BlockKind.all[kind]? with
  | none => throw .invalid
  | some kind =>
    let id := (← getState).world.next
    modifyState fun st => { st with world := st.world.newBlock }
    modifyState fun st => st.pushNamespace (.block id) false
    let scount ← readInt32
    countedLoop (fun _ _ => readSymbol L id) 0 scount ()
    let table ← readBlockTable L readCode (BlockInfo.hasTable ⟨id, name, kind, scount⟩)
    let point ← readPoint L
    let count ← readInt32
    let statements ← readStatements readCode count []
    modifyState fun st => st.popUptoNamespace (.block id)
    return .node (.yeBlock ⟨id, name, kind, scount⟩ table point statements)

/-- The block after `setKind (b_definition)`; what is no block is not cast to one. -/
def asDefinition : YCode → Option YCode
  | .node (.yeBlock info table point statements) =>
    some (.node (.yeBlock { info with kind := .b_definition } table point statements))
  | _ => none

/-- The declaration and the definition of a function. -/
def asFunction : YCode → Option (YCode × YCode)
  | .node (.ycFunction declaration definition) => some (declaration, definition)
  | _ => none

/-- `YFunction::setDefinition` of the function that an entry has, and the function after it. -/
def readDefinition (entry : EntryRef) : CodeReader (YCode × YCode) := do
  let st ← getState
  match asFunction (st.world.code entry) with
  | none => throw .nullHandle
  | some (declaration, old) =>
    if ← readBool then
      modifyState (ReaderState.pushOptional (declaration.blockInfo.map BlockInfo.ns))
      let c ← readCode
      match asDefinition c with
      | none => throw .nullHandle
      | some definition =>
        modifyState (ReaderState.popOptional (declaration.blockInfo.map BlockInfo.ns))
        setCode L entry (.node (.ycFunction declaration definition))
        return (declaration, definition)
    else
      return (declaration, old)

/-- The prototype of a global function has come with the table of its module. -/
def readPrototype (entry : EntryRef) : CodeReader Unit := do
  let st ← getState
  if (symbolAt L st.world entry).map Symbol.global = some true then
    return ()
  else
    let c ← readCode
    setCode L entry c

/-- The stream constructor of `YSFunction`. -/
def readYSFunction (line : UInt32) : CodeReader YCode := do
  let entry ← readEntryPtr L
  readPrototype L readCode entry
  let (declaration, definition) ← readDefinition L readCode entry
  return .node (.ysFunction line entry declaration definition)

/-- The block of a builtin's symbolic parameters, if there are some. -/
def readParameterblock : CodeReader YCode := do
  if ← readBool then
    let block ← readCode
    if block.blockInfo.isSome then return block else throw .nullHandle
  else
    return .null

/-- The stream constructor of `YEBuiltin`; the type is thrown away. -/
def readBuiltin : CodeReader YCode := do
  let _ ← L.readType
  let decl ← L.readDeclaration
  let block ← readParameterblock readCode
  modifyState (ReaderState.pushOptional (block.blockInfo.map BlockInfo.ns))
  let count ← readInt32
  let (_, parameters) ← readYCodelist readCode count []
  modifyState (ReaderState.popOptional (block.blockInfo.map BlockInfo.ns))
  return .node (.yeBuiltin none decl block parameters)

/-- The stream constructor of `YSSwitch`; the number of cases is an `int`. -/
def readSwitch (line : UInt32) : CodeReader YCode := do
  let condition ← readCode
  if condition.isNull then
    throw .invalid
  else
    let size ← readInt32
    let cases ← countedLoop (fun _ cases => readCase L cases) 0 (if size < 2 ^ 31 then size else 0) []
    let defaultcase ← readInt
    let block ← readCode
    if block.isNull then
      throw .invalid
    else
      return .node (.ysSwitch line condition cases defaultcase block)

/-- `YECall::readCall`. -/
def readCall : CodeReader YCode := do
  match ← readEntry L with
  | none => return .null
  | some entry =>
    let count ← readInt32
    match ← readParameters readCode count with
    | some parameters => return .node (.yeFunction entry parameters)
    | none => return .null

/-- The stream constructor of `YEFunctionPointer`. -/
def readFunctionPointer : CodeReader YCode := do
  let entry ← readEntryPtr L
  let count ← readInt32
  match ← readParameters readCode count with
  | some parameters => return .node (.yeFunctionPointer entry parameters)
  | none => throw .invalid

/-- The stream constructor of `YETerm`. -/
def readYETerm : CodeReader YCode := do
  let name ← readCharp
  let count ← readInt32
  let (ok, parameters) ← readYCodelist readCode count []
  if ok then return .node (.yeTerm name parameters) else throw .nullHandle

/-- A statement, after its line has been read. -/
def readStatement (kind : Nat) (line : UInt32) : CodeReader YCode := do
  match kind with
  | 35 =>
    let name ← readCharp
    return .node (.ysTypedef line name (← L.readType))
  | 36 =>
    let entry ← readEntryPtr L
    let code ← readCode
    setCode L entry code
    return .node (.ysVariable line entry code)
  | 37 => readYSFunction L readCode line
  | 38 =>
    let entry ← readEntryPtr L
    return .node (.ysAssign line entry (← readCode))
  | 39 =>
    let entry ← readEntryPtr L
    let arg ← readCode
    return .node (.ysBracket line entry arg (← readCode))
  | 40 =>
    let condition ← readCode
    let ifTrue ← readOptional readCode
    return .node (.ysIf line condition ifTrue (← readOptional readCode))
  | 41 =>
    let condition ← readCode
    return .node (.ysWhile line condition (← readOptional readCode))
  | 42 =>
    let loop ← readOptional readCode
    return .node (.ysDo line (← readCode) loop)
  | 43 =>
    let loop ← readOptional readCode
    return .node (.ysRepeat line (← readCode) loop)
  | 44 => return .node (.ysExpression line (← readCode))
  | 45 => return .node (.ysReturn line (← readOptional readCode))
  | 46 => return .node (.ysBreak line)
  | 47 => return .node (.ysContinue line)
  | 48 => return .node (.ysTextdomain line (← readCharp))
  | 49 =>
    let filename ← readCharp
    return .node (.ysInclude line filename (← readBool))
  | 50 => return .node (.ysFilename line (← readCharp))
  | 51 => readImport L line
  | 52 => return .node (.ysBlock line (← readCode))
  | _ => readSwitch L readCode line

/-- An operator; without its declaration the arguments are not read. -/
def readOperator (arguments : Option DeclId → CodeReader YCode) (none' : YCode) : CodeReader YCode := do
  match ← L.readDeclaration with
  | some d => arguments (some d)
  | none => return none'

/-- An expression, by its kind. -/
def readExpression (kind : Nat) : CodeReader YCode := do
  match kind with
  | 14 =>
    let locale ← readCharp
    return .node (.ycLocale locale (← readCharp))
  | 15 => readFunction readCode
  | 16 =>
    let source ← L.readType
    let target ← L.readType
    return .node (.yePropagate source target (← readCode))
  | 17 => readOperator L (fun d => do return .node (.yeUnary d (← readCode))) (.node (.yeUnary none .null))
  | 18 =>
    readOperator L (fun d => do
      let arg1 ← readCode
      return .node (.yeBinary d arg1 (← readCode))) (.node (.yeBinary none .null .null))
  | 19 =>
    let expr ← readCode
    let ifTrue ← readCode
    return .node (.yeTriple expr ifTrue (← readCode))
  | 20 =>
    let left ← readCode
    let op ← next .endOfStream
    return .node (.yeCompare left op (← readCode))
  | 21 =>
    let singular ← readCharp
    let plural ← readCharp
    let count ← readCode
    return .node (.yeLocale singular plural count (← readCharp))
  | 22 =>
    let count ← readInt32
    return .node (.yeList (← readYCodelist readCode count []).2)
  | 23 =>
    let count ← readInt32
    return .node (.yeMap (← readMapEntries readCode count []))
  | 24 => readYETerm readCode
  | 25 =>
    let type ← L.readType
    return .node (.yeIs type (← readCode))
  | 26 =>
    let var ← readCode
    let arg ← readCode
    let default ← readCode
    let _ ← L.readType
    return .node (.yeBracket var arg default none)
  | 27 => readBlock L readCode
  | 28 => return .node (.yeReturn (← readCode))
  | 29 => return .node (.yeVariable (← readEntryPtr L))
  | 30 => readBuiltin L readCode
  | 31 => readCall L readCode
  | 32 => return .node (.yeReference (← readEntryPtr L))
  | 33 => readFunctionPointer L readCode
  | _ => return .null

/-- `Bytecode::readCode`; `readCode` is the one for the code inside. -/
def readCodeStep : CodeReader YCode := do
  let code ← next .endOfStream
  if code < 13 ∨ 128 ≤ code then
    readConst L (ConstKind.all[code.toNat]?.getD .yxError)
  else if 35 ≤ code ∧ code ≤ 53 then
    let line ← readLine
    readStatement L readCode code.toNat line
  else
    readExpression L readCode code.toNat

end Inner

def readCodeFuel : Nat → CodeReader YCode
  | 0 => throw .outOfFuel
  | fuel + 1 => readCodeStep L (readCodeFuel fuel)

/-- `Bytecode::readCode`. All code inside takes a byte, so the fuel is enough. -/
def readCode : CodeReader YCode := fun s => readCodeFuel L (s.1.length + 1) s

/-- `readModule` of a module that is not in the cache: the stack is tared while the file is read. -/
def readModule (file : Bytes) : CodeReader YCode := do
  let st ← getState
  let (tareId, stack) := st.stack.tareStack
  modifyState fun st => { st with stack := stack }
  let block ← (fun s =>
    match readCode L (file, s.2) with
    | .ok (c, s') => .ok (c, (s.1, s'.2))
    | .error e => .error e : CodeReader YCode)
  modifyState fun st => { st with stack := st.stack.untareStack tareId }
  return block

/-- A module whose file is read at the tared stack. -/
lemma readModule_of_ok {file input rest : Bytes} {st st' : ReaderState} {c : YCode}
    (h : readCode L (file, { st with stack := st.stack.tareStack.2 }) = .ok (c, (rest, st'))) :
    readModule L file (input, st) =
      .ok (c, (input, { st' with stack := st'.stack.untareStack st.stack.tareStack.1 })) := by
  have hfile : (fun s : Bytes × ReaderState =>
      match readCode L (file, s.2) with
      | .ok (c, s') => .ok (c, (s.1, s'.2))
      | .error e => .error e : CodeReader YCode) (input, { st with stack := st.stack.tareStack.2 }) =
      .ok (c, (input, st')) := by
    simp only [h]
  refine (Exec.bind_of_ok (show getState (input, st) = .ok (st, (input, st)) from rfl)).trans ?_
  refine (Exec.bind_of_ok rfl).trans ?_
  exact (Exec.bind_of_ok hfile).trans ((Exec.bind_of_ok rfl).trans rfl)

end Read

end Bytecode

end YastCore
