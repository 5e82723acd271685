import YastCore.Value.Path

/-!
# Code

The classes of `YCode`, `YExpression`, `YStatement` and `YBlock`, with the pointers to other code as
a parameter `κ`. The interpreter follows pointers into a heap; the bytecode is about trees.
-/

namespace YastCore

/-- A type, up to what `Type::toStream` and `Bytecode::readType` keep of it. -/
abbrev TypeId := Nat

/-- A builtin declaration, up to what `StaticDeclaration` writes and finds again. -/
abbrev DeclId := Nat

/-- A C string. -/
structure CText where
  text : Text
  nul_free : 0 ∉ text
deriving DecidableEq

def CText.ofBuffer (buf : Text) : CText := ⟨cut buf, zero_not_mem_cut buf⟩

/-! ### Symbols and blocks -/

/-- `SymbolEntry::category_t`. -/
inductive Category where
  | c_unspec
  | c_global
  | c_module
  | c_variable
  | c_reference
  | c_function
  | c_builtin
  | c_typedef
  | c_const
  | c_namespace
  | c_self
  | c_predefined
  | c_filename
deriving DecidableEq, Repr

/-- `YBlock::blockkind_t`. -/
inductive BlockKind where
  | b_unknown
  | b_module
  | b_file
  | b_statement
  | b_definition
  | b_value
  | b_namespace
  | b_using
deriving DecidableEq, Repr

namespace Category

def all : List Category :=
  [c_unspec, c_global, c_module, c_variable, c_reference, c_function, c_builtin, c_typedef, c_const,
    c_namespace, c_self, c_predefined, c_filename]

def code (c : Category) : Nat := all.idxOf c

lemma getElem?_code (c : Category) : all[c.code]? = some c := by
  cases c <;> rfl

lemma code_lt (c : Category) : c.code < 2 ^ 32 := by
  cases c <;> decide

end Category

namespace BlockKind

def all : List BlockKind :=
  [b_unknown, b_module, b_file, b_statement, b_definition, b_value, b_namespace, b_using]

def code (k : BlockKind) : Nat := all.idxOf k

lemma getElem?_code (k : BlockKind) : all[k.code]? = some k := by
  cases k <;> rfl

lemma code_lt (k : BlockKind) : k.code < 2 ^ 32 := by
  cases k <;> decide

end BlockKind

/-- What a `SymbolEntry` holds beside its namespace, its position and its value. -/
structure Symbol where
  global : Bool
  name : CText
  category : Category
  type : TypeId
deriving DecidableEq

/-- A definition point and the chain of inclusion points above it. -/
structure Point where
  entry : EntryRef
  line : UInt32
  outer : List (EntryRef × UInt32)

/-- A `TableEntry` of a module: its symbol, where it is defined and, of a function, the prototype. -/
structure TableItem (κ : Type) where
  entry : EntryRef
  point : Point
  prototype : κ

/-- The parts of a `YBlock` that are not code. -/
structure BlockInfo where
  id : Nat
  name : CText
  kind : BlockKind
  symbolCount : Nat

def BlockInfo.ns (info : BlockInfo) : NsId := .block info.id

/-- Whether the table of a block goes to the stream. -/
def BlockInfo.hasTable (info : BlockInfo) : Bool := 0 < info.symbolCount && info.kind == .b_module

/-! ### Nodes -/

/-- The kinds of a `YConst`. -/
inductive ConstKind where
  | yxError
  | ycVoid
  | ycBoolean
  | ycInteger
  | ycFloat
  | ycString
  | ycByteblock
  | ycPath
  | ycSymbol
  | ycList
  | ycMap
  | ycTerm
  | ycEntry
deriving DecidableEq, Repr

namespace ConstKind

def all : List ConstKind :=
  [yxError, ycVoid, ycBoolean, ycInteger, ycFloat, ycString, ycByteblock, ycPath, ycSymbol, ycList,
    ycMap, ycTerm, ycEntry]

def code (k : ConstKind) : Nat := all.idxOf k

lemma getElem?_code (k : ConstKind) : all[k.code]? = some k := by
  cases k <;> rfl

/-- The `YCPValueType` of the values of a kind. -/
def valuetype : ConstKind → Option UInt8
  | ycVoid => some 0
  | ycBoolean => some 1
  | ycInteger => some 2
  | ycFloat => some 3
  | ycString => some 4
  | ycByteblock => some 5
  | ycPath => some 6
  | ycSymbol => some 7
  | ycList => some 8
  | ycTerm => some 9
  | ycMap => some 10
  | _ => none

end ConstKind

/-- A code object. Expressions are `yc..` and `ye..`, statements `ys..`, as in `YCode::ykind`. -/
inductive Node (κ : Type) where
  | yConst (kind : ConstKind) (value : YCPValue)
  | ycLocale (locale domain : CText)
  | ycFunction (declaration definition : κ)
  | yePropagate (source target : TypeId) (value : κ)
  | yeUnary (decl : Option DeclId) (arg : κ)
  | yeBinary (decl : Option DeclId) (arg1 arg2 : κ)
  | yeTriple (expr ifTrue ifFalse : κ)
  | yeCompare (left : κ) (op : UInt8) (right : κ)
  | yeLocale (singular plural : CText) (count : κ) (domain : CText)
  | yeList (elements : List κ)
  | yeMap (entries : List (κ × κ))
  | yeTerm (name : CText) (parameters : List κ)
  | yeIs (type : TypeId) (expr : κ)
  | yeBracket (var arg default : κ) (resultType : Option TypeId)
  | yeBlock (info : BlockInfo) (table : List (TableItem κ)) (point : Point) (statements : List κ)
  | yeReturn (expr : κ)
  | yeVariable (entry : EntryRef)
  | yeBuiltin (type : Option TypeId) (decl : Option DeclId) (parameterblock : κ) (parameters : List κ)
  | yeFunction (entry : EntryRef) (parameters : List κ)
  | yeReference (entry : EntryRef)
  | yeFunctionPointer (entry : EntryRef) (parameters : List κ)
  | ysTypedef (line : UInt32) (name : CText) (type : TypeId)
  | ysVariable (line : UInt32) (entry : EntryRef) (code : κ)
  | ysFunction (line : UInt32) (entry : EntryRef) (declaration definition : κ)
  | ysAssign (line : UInt32) (entry : EntryRef) (code : κ)
  | ysBracket (line : UInt32) (entry : EntryRef) (arg code : κ)
  | ysIf (line : UInt32) (condition ifTrue ifFalse : κ)
  | ysWhile (line : UInt32) (condition loop : κ)
  | ysDo (line : UInt32) (condition loop : κ)
  | ysRepeat (line : UInt32) (condition loop : κ)
  | ysExpression (line : UInt32) (expr : κ)
  | ysReturn (line : UInt32) (value : κ)
  | ysBreak (line : UInt32)
  | ysContinue (line : UInt32)
  | ysTextdomain (line : UInt32) (domain : CText)
  | ysInclude (line : UInt32) (filename : CText) (skipped : Bool)
  | ysFilename (line : UInt32) (filename : CText)
  | ysImport (line : UInt32) (name : CText)
  | ysBlock (line : UInt32) (block : κ)
  | ysSwitch (line : UInt32) (condition : κ) (cases : List (YCPValue × Int32)) (defaultcase : Int32)
      (block : κ)

namespace Node

variable {κ : Type}

/-- The code a node points to, in the order of the members. -/
@[simp] def children : Node κ → List κ
  | ycFunction declaration definition => [declaration, definition]
  | yePropagate _ _ value => [value]
  | yeUnary _ arg => [arg]
  | yeBinary _ arg1 arg2 => [arg1, arg2]
  | yeTriple expr ifTrue ifFalse => [expr, ifTrue, ifFalse]
  | yeCompare left _ right => [left, right]
  | yeLocale _ _ count _ => [count]
  | yeList elements => elements
  | yeMap entries => entries.flatMap fun e => [e.1, e.2]
  | yeTerm _ parameters => parameters
  | yeIs _ expr => [expr]
  | yeBracket var arg default _ => [var, arg, default]
  | yeBlock _ table _ statements => table.map TableItem.prototype ++ statements
  | yeReturn expr => [expr]
  | yeBuiltin _ _ parameterblock parameters => parameterblock :: parameters
  | yeFunction _ parameters => parameters
  | yeFunctionPointer _ parameters => parameters
  | ysVariable _ _ code => [code]
  | ysFunction _ _ declaration definition => [declaration, definition]
  | ysAssign _ _ code => [code]
  | ysBracket _ _ arg code => [arg, code]
  | ysIf _ condition ifTrue ifFalse => [condition, ifTrue, ifFalse]
  | ysWhile _ condition loop => [condition, loop]
  | ysDo _ condition loop => [condition, loop]
  | ysRepeat _ condition loop => [condition, loop]
  | ysExpression _ expr => [expr]
  | ysReturn _ value => [value]
  | ysBlock _ block => [block]
  | ysSwitch _ condition _ _ block => [condition, block]
  | _ => []

end Node

/-! ### Trees -/

/-- A code tree; `null` is the null pointer. -/
inductive YCode where
  | null
  | node (n : Node YCode)

namespace YCode

/-- The block that a pointer points to, if it does. -/
def blockInfo : YCode → Option BlockInfo
  | node (.yeBlock info _ _ _) => some info
  | _ => none

/-- `isStatement`: the statements, and a block used as one. -/
def isStatement : YCode → Bool
  | node (.ysTypedef ..) => true
  | node (.ysVariable ..) => true
  | node (.ysFunction ..) => true
  | node (.ysAssign ..) => true
  | node (.ysBracket ..) => true
  | node (.ysIf ..) => true
  | node (.ysWhile ..) => true
  | node (.ysDo ..) => true
  | node (.ysRepeat ..) => true
  | node (.ysExpression ..) => true
  | node (.ysReturn ..) => true
  | node (.ysBreak ..) => true
  | node (.ysContinue ..) => true
  | node (.ysTextdomain ..) => true
  | node (.ysInclude ..) => true
  | node (.ysFilename ..) => true
  | node (.ysImport ..) => true
  | node (.ysBlock ..) => true
  | node (.ysSwitch ..) => true
  | node (.yeBlock info _ _ _) => info.kind = .b_statement
  | _ => false

def isNull : YCode → Bool
  | null => true
  | node _ => false

/-- A local condition holds at a node and at all that `sub` finds below it. -/
inductive Every (sub : Node YCode → List YCode) (q : Node YCode → Prop) : YCode → Prop where
  | null : Every sub q null
  | node {n : Node YCode} (here : q n) (below : ∀ c ∈ sub n, Every sub q c) : Every sub q (node n)

lemma every_node {sub : Node YCode → List YCode} {q : Node YCode → Prop} {n : Node YCode} :
    Every sub q (node n) ↔ q n ∧ ∀ c ∈ sub n, Every sub q c := by
  constructor
  · rintro (_ | ⟨here, below⟩)
    exact ⟨here, below⟩
  · rintro ⟨here, below⟩
    exact .node here below

lemma Every.imp {sub : Node YCode → List YCode} {q q' : Node YCode → Prop} {c : YCode}
    (h : ∀ n, q n → q' n) (hc : Every sub q c) : Every sub q' c := by
  induction hc with
  | null => exact .null
  | node here _ ih => exact .node (h _ here) ih

lemma every_and {sub : Node YCode → List YCode} {q q' : Node YCode → Prop} {c : YCode} :
    Every sub (fun n => q n ∧ q' n) c ↔ Every sub q c ∧ Every sub q' c := by
  refine ⟨fun h => ⟨h.imp fun n hn => hn.1, h.imp fun n hn => hn.2⟩, fun h => ?_⟩
  obtain ⟨h, h'⟩ := h
  induction h with
  | null => exact .null
  | node here below ih =>
    rw [every_node] at h'
    exact .node ⟨here, h'.1⟩ fun c hc => ih c hc (h'.2 c hc)

/-- Induction over the code at any depth. -/
@[elab_as_elim]
theorem induct {motive : YCode → Prop} (null : motive null)
    (node : ∀ n : Node YCode, (∀ c ∈ n.children, motive c) → motive (node n)) (c : YCode) :
    motive c := by
  refine @YCode.rec motive (fun n => ∀ c ∈ n.children, motive c) (fun l => ∀ c ∈ l, motive c)
    (fun l => ∀ e ∈ l, motive e.1 ∧ motive e.2) (fun l => ∀ e ∈ l, motive e.prototype)
    (fun e => motive e.1 ∧ motive e.2) (fun e => motive e.prototype) null node
    ?_ ?_ ?_ ?_ ?_ ?_ ?_ ?_ ?_ ?_ ?_ ?_ ?_ ?_ ?_ ?_ ?_ ?_ ?_ ?_ ?_ ?_ ?_ ?_ ?_ ?_ ?_ ?_ ?_ ?_ ?_ ?_
    ?_ ?_ ?_ ?_ ?_ ?_ ?_ ?_ ?_ ?_ ?_ ?_ ?_ ?_ ?_ ?_ c
  all_goals
    simp only [Node.children, List.forall_mem_cons, List.not_mem_nil, false_imp_iff, implies_true,
      and_true, List.mem_append, List.mem_map, List.mem_flatMap]
  all_goals grind

end YCode

end YastCore
