import Mathlib.Logic.Function.Basic
import YastCore.Code.Basic
import YastCore.Interp.Loops
import YastCore.Type.Match
import YastCore.Type.Value
import YastCore.Value.Index

/-!
# The state of the interpreter

What an evaluation reads and changes: the symbol entries with their recursion stacks, the call
objects held by the call nodes, the blocks that are running, the frames of the backtrace. Code is a
heap of nodes, because a quoted expression, a call object and a running block are known by their
address.
-/

namespace YastCore.Interp

/-! ### Programs -/

/-- What the evaluation reads of a symbol entry. `code` is the `YFunction` of a function. -/
structure SymbolInfo where
  category : Category
  type : YType
  code : CodePtr

/-- What a builtin does with its arguments, up to its result: it evaluates code it was given, reads
and sets symbols it was given, and acts on the world outside the interpreter. -/
inductive BuiltinRun where
  | ret (v : YCPValue)
  | crash
  | evaluate (code : CodePtr) (next : YCPValue → BuiltinRun)
  | value (entry : EntryRef) (next : YCPValue → BuiltinRun)
  | setValue (entry : EntryRef) (v : YCPValue) (next : BuiltinRun)
  | outside (act : Nat → YCPValue × Nat) (next : YCPValue → BuiltinRun)

/-- A `declaration_t` as the evaluation uses it: the flags `DECL_NIL` and `DECL_NOEVAL`, the types of
the parameters, the function, and the call handler of its namespace where that has the flag
`DECL_CALL_HANDLER`. -/
structure Builtin where
  nil : Bool
  noeval : Bool
  parameters : List YType
  ptr : Option (List YCPValue → BuiltinRun)
  handler : Option (Option (List YCPValue → BuiltinRun))

/-- A module that can be imported: its block and the function named like it. -/
structure Module where
  block : CodePtr
  constructor : Option EntryRef

/-- Everything that stays the same during a run. An address without a node is the null pointer.
`createFunctionCall` is the lookup of a function by the name of an entry in its namespace. -/
structure Program where
  code : CodePtr → Option (Node CodePtr)
  codeType : CodePtr → YType
  type : TypeId → YType
  symbol : EntryRef → SymbolInfo
  builtin : DeclId → Option Builtin
  createFunctionCall : EntryRef → Option EntryRef
  module : Text → Option Module
  dgettext : CText → CText → Text
  dngettext : CText → CText → CText → Int64 → Text
  recursionLimit : Nat

namespace Program

variable (P : Program)

/-- The number of parameters that the type of a function has. -/
def parameterCount (f : EntryRef) : Nat :=
  match (P.symbol f).type with
  | .functionT _ arguments _ => arguments.length
  | _ => 0

/-- The symbols of a block. -/
def symbols (info : BlockInfo) : List EntryRef :=
  (List.range info.symbolCount).map fun i => ⟨info.ns, i⟩

/-- The symbols that `Y2Namespace::pushToStack` saves. -/
def variableSymbols (info : BlockInfo) : List EntryRef :=
  (symbols info).filter fun e => (P.symbol e).category = .c_variable

/-- The formal parameters of a function with this declaration. -/
def formals (declaration : CodePtr) : List EntryRef :=
  match P.code declaration with
  | some (.yeBlock info _ _ _) => symbols info
  | _ => []

def isConstant (c : CodePtr) : Bool :=
  match P.code c with
  | some (.yConst _ _) => true
  | _ => false

def isBlock (c : CodePtr) : Bool :=
  match P.code c with
  | some (.yeBlock _ _ _ _) => true
  | _ => false

def isFunction (c : CodePtr) : Bool :=
  match P.code c with
  | some (.ycFunction _ _) => true
  | _ => false

/-- The program with these nodes at the addresses from 1 on, without builtins and modules. -/
def ofNodes (nodes : List (Node CodePtr)) (symbol : EntryRef → SymbolInfo) (limit : Nat) : Program where
  code := fun p => if p = 0 then none else nodes[p - 1]?
  codeType := fun _ => .base .unspecT unqualified
  type := fun _ => .base .unspecT unqualified
  symbol := symbol
  builtin := fun _ => none
  createFunctionCall := fun e => if (symbol e).category = .c_function then some e else none
  module := fun _ => none
  dgettext := fun _ text => text.text
  dngettext := fun _ singular plural n => if n = 1 then singular.text else plural.text
  recursionLimit := limit

end Program

/-! ### States -/

/-- A `Y2YCPFunction`: the function and the slots for its parameters. -/
structure FunctionCall where
  sentry : EntryRef
  parameters : List YCPValue

/-- A call object with all its slots empty. -/
def FunctionCall.fresh (P : Program) (f : EntryRef) : FunctionCall :=
  ⟨f, List.replicate (P.parameterCount f) .null⟩

/-- What the run of a program is observed by. -/
inductive Event where
  | mapEntry (key value : YCPValue)
  | builtin (decl : DeclId) (args : List YCPValue)
  | begins (node : CodePtr) (designated : EntryRef) (pending : List (CodePtr × EntryRef))
  | calls (node : CodePtr) (designated : EntryRef) (computed : List YCPValue) (call : FunctionCall)
  | enters (depth unframed : Nat)

/-- The last four fields only observe the run: how many calls of `evaluateCall` are open, how many
of them no frame was pushed for, which activations of call nodes are evaluating their arguments, and
the events so far, the last one first. -/
structure State where
  value : EntryRef → YCPValue
  stack : EntryRef → Option (List YCPValue)
  running : CodePtr → Bool
  functioncall : CodePtr → Option FunctionCall
  backtrace : List (CodePtr × List YCPValue)
  initialized : Text → Bool
  world : Nat
  depth : Nat
  unframed : Nat
  pending : List (CodePtr × EntryRef)
  trace : List Event

/-- Nothing has a value and nothing runs. -/
def State.start : State where
  value := fun _ => .null
  stack := fun _ => none
  running := fun _ => false
  functioncall := fun _ => none
  backtrace := []
  initialized := fun _ => false
  world := 0
  depth := 0
  unframed := 0
  pending := []
  trace := []

/-- Computations of the interpreter. A fault keeps the state in which it occurred. -/
abbrev M := EStateM Fault State

/-- The state in which a run ended or was stopped. -/
def finalState {α : Type} : EStateM.Result Fault State α → State
  | .ok _ s => s
  | .error _ s => s

def record (event : Event) : M Unit := modify fun s => { s with trace := event :: s.trace }

/-! ### Symbol entries -/

def assign (e : EntryRef) (v : YCPValue) : M YCPValue := do
  modify fun s => { s with value := Function.update s.value e v }
  return v

/-- `SymbolEntry::setValue`. References may lead through any number of entries. -/
def setValue (P : Program) : Nat → EntryRef → YCPValue → M YCPValue
  | 0, _, _ => throw .outOfFuel
  | fuel + 1, e, v => do
    if !v.isNull && (P.symbol e).category = .c_reference then
      match v with
      | .reference _ => assign e v
      | _ =>
        match (← get).value e with
        | .reference target => setValue P fuel target v
        | _ => return .null
    else assign e (if v.isNull then .void else v)

/-- `SymbolEntry::value`. -/
def entryValue (P : Program) : Nat → EntryRef → M YCPValue
  | 0, _ => throw .outOfFuel
  | fuel + 1, e => do
    let s ← get
    if (P.symbol e).category = .c_reference then
      match s.value e with
      | .reference target => entryValue P fuel target
      | v => return v
    else return s.value e

def push (e : EntryRef) : M Unit :=
  modify fun s =>
    { s with stack := Function.update s.stack e (some (s.value e :: (s.stack e).getD [])) }

/-- `SymbolEntry::pop`; the top of an empty stack is undefined. -/
def pop (e : EntryRef) : M Unit := do
  match (← get).stack e with
  | none => return
  | some [] => throw .crash
  | some (v :: rest) =>
    modify fun s =>
      { s with value := Function.update s.value e v, stack := Function.update s.stack e (some rest) }

def pushAll : List EntryRef → M Unit
  | [] => return
  | e :: es => do
    push e
    pushAll es

def popAll : List EntryRef → M Unit
  | [] => return
  | e :: es => do
    pop e
    popAll es

/-! ### Call objects -/

def setFunctionCall (node : CodePtr) (call : FunctionCall) : M Unit :=
  modify fun s => { s with functioncall := Function.update s.functioncall node (some call) }

/-- `Y2YCPFunction::attachParameter` for the parameters from a position on. The position just past
the last slot passes the check and is written out of bounds. -/
def attachParameters (P : Program) (call : FunctionCall) : Nat → List YCPValue → Option FunctionCall
  | _, [] => some call
  | pos, arg :: args =>
    if P.parameterCount call.sentry < pos then attachParameters P call (pos + 1) args
    else if pos < call.parameters.length then
      attachParameters P { call with parameters := call.parameters.set pos arg } (pos + 1) args
    else none

end YastCore.Interp
