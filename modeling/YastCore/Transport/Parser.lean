import YastCore.Interp.Evaluate
import YastCore.Transport.Scanner

/-!
# The parser

The rules of `parser.yy` for the texts of values, with their actions, and the two ends of the
connection to an external program. Code is allocated in a heap that only grows. Other expressions are
left out: where their rules would apply there is no result.
-/

namespace YastCore.Transport

open Interp

abbrev Heap := List (Node CodePtr)

/-- What a rule leaves: the code and the type of the expression, the heap and the rest of the text. -/
structure Parsed where
  c : CodePtr
  t : YType
  heap : Heap
  rest : Text

/-- `new`: the address of the node is the next free one. -/
def Heap.alloc (heap : Heap) (node : Node CodePtr) : CodePtr × Heap := (heap.length + 1, heap ++ [node])

def Heap.program (heap : Heap) : Program :=
  Program.ofNodes heap (fun _ => ⟨.c_unspec, .base .unspecT unqualified, 0⟩) 0

/-- `code->evaluate (cse)`; none where the evaluation faults. -/
def Heap.evaluate (heap : Heap) (cse : Bool) (c : CodePtr) : Option YCPValue :=
  match Interp.evaluate heap.program (heap.length + 1) cse c State.start with
  | .ok v _ => some v
  | .error _ _ => none

/-! ### Constants -/

def constKind : YCPValue → ConstKind
  | .void => .ycVoid
  | .boolean _ => .ycBoolean
  | .integer _ => .ycInteger
  | .string _ => .ycString
  | .byteblock _ => .ycByteblock
  | .path _ => .ycPath
  | .symbol _ => .ycSymbol
  | _ => .yxError

def constQualified : Qualifiers := ⟨true, false⟩

/-- The type that the scanner or the rule `constant` gives a constant. -/
def constType : YCPValue → YType
  | .void => .base .voidT constQualified
  | .boolean _ => .base .booleanT constQualified
  | .integer _ => .base .integerT constQualified
  | .string _ => .base .stringT unqualified
  | .byteblock _ => .base .byteblockT constQualified
  | .path _ => .base .pathT constQualified
  | .symbol _ => .base .symbolT constQualified
  | _ => .base .errorT unqualified

def constant (heap : Heap) (v : YCPValue) (rest : Text) : Parsed :=
  let (c, heap) := heap.alloc (.yConst (constKind v) v)
  ⟨c, constType v, heap, rest⟩

/-! ### The rules -/

/-- What stands between elements or at their end, with `opt_comma` and the closing bracket: whether the
elements end here, and the rest. -/
def nextElement (text : Text) : Option (Bool × Text) :=
  match scan text with
  | some (.char 93, rest) => some (true, rest)
  | some (.char 44, rest) =>
    match scan rest with
    | some (.char 93, rest) => some (true, rest)
    | _ => some (false, rest)
  | _ => none

section Rules

variable (expression : Heap → Text → Option Parsed)

/-- `list_elements` after the first one, up to the end of the list. -/
def listElements : Nat → List CodePtr → Parsed → Option (List CodePtr × Parsed)
  | 0, _, _ => none
  | fuel + 1, elements, p =>
    match nextElement p.rest with
    | none => none
    | some (true, rest) => some (elements, { p with rest := rest })
    | some (false, rest) => do
      let e ← expression p.heap rest
      let t ← p.t.commontype e.t
      listElements fuel (elements ++ [e.c]) { e with t := t }

/-- `list`, after the opening bracket. -/
def list (fuel : Nat) (heap : Heap) (text : Text) : Option Parsed :=
  match scan text with
  | some (.char 93, rest) =>
    let (c, heap) := heap.alloc (.yConst .ycList (.list []))
    some ⟨c, .listT (.base .unspecT unqualified) unqualified, heap, rest⟩
  | _ => do
    let first ← expression heap text
    let (elements, p) ← listElements expression fuel [first.c] first
    let (c, heap) := p.heap.alloc (.yeList elements)
    let list ← heap.evaluate true c
    match list with
    | .null => some ⟨c, .listT p.t unqualified, heap, p.rest⟩
    | .code c => some ⟨c, .listT p.t unqualified, heap, p.rest⟩
    | .list l =>
      let (c, heap) := heap.alloc (.yConst .ycList (.list l))
      some ⟨c, .listT p.t unqualified, heap, p.rest⟩
    | _ => none

/-- The types of map keys. -/
def isKeyType (t : YType) : Bool := t.isInteger || t.isString || t.isSymbol

/-- `expression ':' expression` of `map_elements`: the key and the value. -/
def mapElement (heap : Heap) (text : Text) : Option (Parsed × Parsed) := do
  let key ← expression heap text
  match scan key.rest with
  | some (.char 58, rest) =>
    let value ← expression key.heap rest
    if isKeyType key.t then some (key, value) else none
  | _ => none

/-- `map_elements` after the first one, up to the end of the map. -/
def mapElements : Nat → List (CodePtr × CodePtr) → YType → YType → Heap → Text →
    Option (List (CodePtr × CodePtr) × YType × YType × Heap × Text)
  | 0, _, _, _, _, _ => none
  | fuel + 1, elements, keytype, valuetype, heap, text =>
    match nextElement text with
    | none => none
    | some (true, rest) => some (elements, keytype, valuetype, heap, rest)
    | some (false, rest) => do
      let (key, value) ← mapElement expression heap rest
      let keytype ← keytype.commontype key.t
      let valuetype ← valuetype.commontype value.t
      mapElements fuel (elements ++ [(key.c, value.c)]) keytype valuetype value.heap value.rest

/-- `map`, after `MAPEXPR`. -/
def map (fuel : Nat) (heap : Heap) (text : Text) : Option Parsed :=
  match scan text with
  | some (.char 93, rest) =>
    let (c, heap) := heap.alloc (.yConst .ycMap (.map []))
    some ⟨c, .mapT (.base .unspecT unqualified) (.base .unspecT unqualified) unqualified, heap, rest⟩
  | _ => do
    let (key, value) ← mapElement expression heap text
    let (elements, keytype, valuetype, heap, rest) ←
      mapElements expression fuel [(key.c, value.c)] key.t value.t value.heap value.rest
    let t := YType.mapT keytype valuetype unqualified
    let (c, heap) := heap.alloc (.yeMap elements)
    let map ← heap.evaluate true c
    match map with
    | .null => some ⟨c, t, heap, rest⟩
    | .code c => some ⟨c, t, heap, rest⟩
    | .map m =>
      let (c, heap) := heap.alloc (.yConst .ycMap (.map m))
      some ⟨c, t, heap, rest⟩
    | _ => none

/-- `parameters` after the first one, with the closing parenthesis. -/
def parameters : Nat → List CodePtr → Heap → Text → Option (List CodePtr × Heap × Text)
  | 0, _, _, _ => none
  | fuel + 1, args, heap, text =>
    match scan text with
    | some (.char 41, rest) => some (args, heap, rest)
    | some (.char 44, rest) => do
      let e ← expression heap rest
      parameters fuel (args ++ [e.c]) e.heap e.rest
    | _ => none

/-- `function_call` of a term, after the opening parenthesis. -/
def term (fuel : Nat) (name : Text) (heap : Heap) (text : Text) : Option Parsed := do
  let (args, heap, rest) ←
    match scan text with
    | some (.char 41, rest) => some ([], heap, rest)
    | _ => do
      let first ← expression heap text
      parameters expression fuel [first.c] first.heap first.rest
  let (c, heap) := heap.alloc (.yeTerm (.ofBuffer name) args)
  some ⟨c, .base .termT unqualified, heap, rest⟩

/-- `compact_expression`, after its first token. -/
def compactExpression (fuel : Nat) (heap : Heap) : Token → Text → Option Parsed
  | .constant v, rest => some (constant heap v rest)
  | .symbol name, rest =>
    match scan rest with
    | some (.char 40, rest) => term expression fuel name heap rest
    | _ => some (constant heap (.symbol name) rest)
  | .char 91, rest => list expression fuel heap rest
  | .mapExpr, rest => map expression fuel heap rest
  | .char 40, rest => do
    let e ← expression heap rest
    match scan e.rest with
    | some (.char 41, rest) => some { e with rest := rest }
    | _ => none
  | _, _ => none

/-- `'-' expression` for an integer constant. -/
def negate (heap : Heap) (text : Text) : Option Parsed := do
  let e ← expression heap text
  match e.heap.program.code e.c with
  | some (.yConst .ycInteger (.integer i)) =>
    let (c, heap) := e.heap.alloc (.yConst .ycInteger (.integer (-i)))
    some ⟨c, .base .integerT unqualified, heap, e.rest⟩
  | _ => none

end Rules

/-- `expression` -/
def expression : Nat → Heap → Text → Option Parsed
  | 0, _, _ => none
  | fuel + 1, heap, text =>
    match scan text with
    | some (.char 45, rest) => negate (expression fuel) heap rest
    | some (token, rest) => compactExpression (expression fuel) fuel heap token rest
    | none => none

/-- `ycp` -/
def parse (fuel : Nat) (text : Text) : Option Parsed :=
  match scan text with
  | some (token, rest) => compactExpression (expression fuel) fuel [] token rest
  | none => none

lemma compactExpression_open {expression : Heap → Text → Option Parsed} {heap : Heap}
    {text rest : Text} {e : Parsed} (he : expression heap text = some e)
    (hclose : scan e.rest = some (.char 41, rest)) (fuel : Nat) :
    compactExpression expression fuel heap (.char 40) text = some { e with rest := rest } := by
  simp [compactExpression, he, hclose]

/-! ### The connection -/

/-- The text of `sendToExternal`, without the line feed behind it. -/
def sendToExternal (isprint : UInt8 → Bool) (v : YCPValue) : Text := 40 :: (toText isprint v ++ [41])

/-- `receiveFromExternal`: the value of the next expression, and the rest of the stream. -/
def receiveFromExternal (fuel : Nat) (text : Text) : Option (YCPValue × Text) := do
  let p ← parse fuel text
  let ret ← p.heap.evaluate true p.c
  if ret.isNull then
    let ret ← p.heap.evaluate false p.c
    some (ret, p.rest)
  else some (ret, p.rest)

end YastCore.Transport
