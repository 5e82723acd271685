import YastCore.Code.Bytecode

/-!
# The copy that a reader makes of a tree

What reading should yield, said without bytes, ids and a stack: every block of the tree is made anew,
in the order of the tree, and remembers which block it is a copy of. A reference goes to the symbol
of the same position in the copy of its block, or to the symbol of the same name in the module that
is found when the tree is read.
-/

namespace YastCore

namespace Bytecode

/-- The objects made so far and, for the blocks of the tree, their copies among them. -/
structure Links where
  world : World
  block : Nat → Option Nat

abbrev CopyM := StateT Links Option

namespace CopyM

variable {α β : Type} {k k' : Links}

lemma bind_some_iff {x : CopyM α} {f : α → CopyM β} {b : β} :
    (x >>= f) k = some (b, k') ↔ ∃ a k₁, x k = some (a, k₁) ∧ f a k₁ = some (b, k') := by
  change (x k >>= fun p => f p.1 p.2) = some (b, k') ↔ _
  cases x k with
  | none => simp
  | some p =>
    obtain ⟨a, k₁⟩ := p
    simp

lemma pure_some_iff {a b : α} : (pure a : CopyM α) k = some (b, k') ↔ a = b ∧ k = k' := by
  change some (a, k) = some (b, k') ↔ _
  rw [Option.some.injEq, Prod.mk.injEq]

lemma get_some_iff {a : Links} : (get : CopyM Links) k = some (a, k') ↔ k = a ∧ k = k' := by
  change some (k, k) = some (a, k') ↔ _
  rw [Option.some.injEq, Prod.mk.injEq]

lemma set_some_iff {k₁ : Links} {u : PUnit} :
    (set k₁ : CopyM PUnit) k = some (u, k') ↔ k₁ = k' := by
  change some (PUnit.unit, k₁) = some (u, k') ↔ _
  rw [Option.some.injEq, Prod.mk.injEq]
  exact and_iff_right rfl

lemma failure_some_iff {a : α} : (failure : CopyM α) k = some (a, k') ↔ False := by
  change (none : Option (α × Links)) = some (a, k') ↔ _
  simp

end CopyM

section Copy

variable (E : WriterEnv) (L : ReaderEnv)

/-- The symbol that a module provides for one that was used from it, with a matching type. -/
def provided (m : Text) (p : Nat) : Option Nat :=
  match L.find m (E.symbol ⟨.module m, p⟩).name.text with
  | none => none
  | some q =>
    match ((L.modules m).getD [])[q]? with
    | none => none
    | some s => if L.matchType s.type (E.symbol ⟨.module m, p⟩).type then some q else none

/-- The copy of a symbol of a block. -/
def linkLocal (k : Links) (e : EntryRef) : Option EntryRef :=
  match e.ns with
  | .block b =>
    match k.block b with
    | some b' => if e.position < (k.world.symbols b').length then some ⟨.block b', e.position⟩ else none
    | none => none
  | .module _ => none

def linkEntry (k : Links) (e : EntryRef) : Option EntryRef :=
  match e.ns with
  | .block _ => linkLocal k e
  | .module m =>
    if e.position ∈ E.usage m then (provided E L m e.position).map fun q => ⟨.module m, q⟩ else none

def copyEntry (e : EntryRef) : CopyM EntryRef := fun k => (linkEntry E L k e).map fun e' => (e', k)

def copyLocal (e : EntryRef) : CopyM EntryRef := fun k => (linkLocal k e).map fun e' => (e', k)

def copyChain : List (EntryRef × UInt32) → CopyM (List (EntryRef × UInt32))
  | [] => return []
  | (e, line) :: outer => do
    let e' ← copyEntry E L e
    let outer' ← copyChain outer
    return (e', line) :: outer'

def copyPoint (p : Point) : CopyM Point := do
  let e ← copyEntry E L p.entry
  let outer ← copyChain E L p.outer
  return ⟨e, p.line, outer⟩

def guardCopy (b : Bool) : CopyM Unit := fun k => if b then some ((), k) else none

def modifyWorld (f : World → World) : CopyM Unit := fun k => some ((), { k with world := f k.world })

def copyIf {α : Type} (b : Bool) (x : CopyM α) (default : α) : CopyM α :=
  if b then x else pure default

lemma guardCopy_some_iff {b : Bool} {k k' : Links} {u : Unit} :
    guardCopy b k = some (u, k') ↔ b = true ∧ k = k' := by
  cases b <;> simp [guardCopy]

lemma modifyWorld_some_iff {f : World → World} {k k' : Links} {u : Unit} :
    modifyWorld f k = some (u, k') ↔ { k with world := f k.world } = k' := by
  simp [modifyWorld]

lemma copyEntry_some_iff {e e' : EntryRef} {k k' : Links} :
    copyEntry E L e k = some (e', k') ↔ linkEntry E L k e = some e' ∧ k = k' := by
  simp [copyEntry, Option.map_eq_some_iff]

lemma copyLocal_some_iff {e e' : EntryRef} {k k' : Links} :
    copyLocal e k = some (e', k') ↔ linkLocal k e = some e' ∧ k = k' := by
  simp [copyLocal, Option.map_eq_some_iff]

/-- A constant as the bytecode carries it; its kind has to be that of the value. -/
def copyConst (kind : ConstKind) (value : YCPValue) : CopyM (Node YCode) := do
  match value with
  | .entry e =>
    guardCopy (kind = .ycEntry)
    return .yConst kind (.entry (← copyEntry E L e))
  | v =>
    guardCopy (kind.valuetype = some (UInt8.ofNat v.valuetype))
    return .yConst kind v.carried

/-- The map of cases that arises from the cases in the stream. -/
def carriedCases (cases : List (YCPValue × Int32)) : List (YCPValue × Int32) :=
  cases.foldl (fun m c => caseInsert c.1.carried c.2 m) []

/-- A new block for one of the tree that has no copy yet, with its symbols. -/
def copyHeader (info : BlockInfo) : CopyM Nat := do
  let k ← get
  guardCopy (k.block info.id).isNone
  set (⟨k.world.newBlock, Function.update k.block info.id (some k.world.next)⟩ : Links)
  modifyWorld fun w => (symbolsOf E info).foldl (fun w s => w.addSymbol k.world.next s) w
  return k.world.next

/-- The copy of the block that a function declares its parameters in. -/
def linkDeclaration (k : Links) (declaration : YCode) : Option Nat :=
  match declarationNs declaration with
  | some (.block b) => k.block b
  | _ => none

/-- The prototype of a function that is not global. -/
def copyPrototype (entry : EntryRef) (global need_declaration : Bool) (declaration : CopyM YCode) :
    CopyM Unit :=
  if global then
    return ()
  else do
    let declaration' ← copyIf need_declaration declaration .null
    modifyWorld fun w => codeSet L w entry (.node (.ycFunction declaration' .null))

/-- The prototype in the table of a module: of a function, and that only if it is global. -/
def copyTablePrototype (entry : EntryRef) (s : Symbol) (prototype : CopyM YCode) : CopyM YCode :=
  if s.category = .c_function then do
    guardCopy s.global
    let prototype' ← prototype
    modifyWorld fun w => codeSet L w entry prototype'
    return prototype'
  else
    return .null

/-- The function that an entry has gets its definition. -/
def copyDefinition (entry : EntryRef) (declaration definition : YCode) (copied : CopyM YCode) :
    CopyM (YCode × YCode) := do
  let k ← get
  match asFunction (k.world.code entry) with
  | none => failure
  | some (declaration', old) =>
    guardCopy (declaration'.blockInfo.map BlockInfo.id = linkDeclaration k declaration ∧
      (declarationNs declaration).isSome = (linkDeclaration k declaration).isSome)
    if definition.isNull then
      return (declaration', old)
    else
      guardCopy definition.blockInfo.isSome
      let c ← copied
      match asDefinition c with
      | none => failure
      | some definition' =>
        modifyWorld fun w => codeSet L w entry (.node (.ycFunction declaration' definition'))
        return (declaration', definition')

mutual

/-- The copy of a tree, if all its symbols are there. -/
def copy : YCode → CopyM YCode
  | .null => return .null
  | .node n => return .node (← copyNode n)

def copyNode : Node YCode → CopyM (Node YCode)
  | .yConst kind value => copyConst E L kind value
  | .ycLocale locale domain => return .ycLocale locale domain
  | .ycFunction declaration _ => do
    let declaration' ← copyIf (needDeclaration declaration) (copy declaration) .null
    return .ycFunction declaration' .null
  | .yePropagate source target value => return .yePropagate source target (← copy value)
  | .yeUnary decl arg => return .yeUnary decl (← copy arg)
  | .yeBinary decl arg1 arg2 => do
    let arg1' ← copy arg1
    return .yeBinary decl arg1' (← copy arg2)
  | .yeTriple expr ifTrue ifFalse => do
    let expr' ← copy expr
    let ifTrue' ← copy ifTrue
    return .yeTriple expr' ifTrue' (← copy ifFalse)
  | .yeCompare left op right => do
    let left' ← copy left
    return .yeCompare left' op (← copy right)
  | .yeLocale singular plural count domain =>
    return .yeLocale singular plural (← copy count) domain
  | .yeList elements => return .yeList (← copyList elements)
  | .yeMap entries => return .yeMap (← copyEntries entries)
  | .yeTerm name parameters => return .yeTerm name (← copyList parameters)
  | .yeIs type expr => return .yeIs type (← copy expr)
  | .yeBracket var arg default _ => do
    let var' ← copy var
    let arg' ← copy arg
    return .yeBracket var' arg' (← copy default) none
  | .yeBlock info table point statements => do
    let id ← copyHeader E info
    let table' ← copyIf info.hasTable (copyTable table) []
    let point' ← copyPoint E L point
    let statements' ← copyStatements statements
    return .yeBlock { info with id := id } table' point' statements'
  | .yeReturn expr => return .yeReturn (← copy expr)
  | .yeVariable entry => return .yeVariable (← copyEntry E L entry)
  | .yeBuiltin _ decl parameterblock parameters => do
    let block ← copy parameterblock
    guardCopy (parameterblock.isNull || parameterblock.blockInfo.isSome)
    return .yeBuiltin none decl block (← copyList parameters)
  | .yeFunction entry parameters => do
    let entry' ← copyEntry E L entry
    return .yeFunction entry' (← copyList parameters)
  | .yeReference entry => return .yeReference (← copyEntry E L entry)
  | .yeFunctionPointer entry parameters => do
    let entry' ← copyEntry E L entry
    return .yeFunctionPointer entry' (← copyList parameters)
  | .ysTypedef line name type => return .ysTypedef line name type
  | .ysVariable line entry code => do
    let entry' ← copyEntry E L entry
    let code' ← copy code
    modifyWorld fun w => codeSet L w entry' code'
    return .ysVariable line entry' code'
  | .ysFunction line entry declaration definition => do
    let entry' ← copyLocal entry
    copyPrototype L entry' (E.symbol entry).global (needDeclaration declaration) (copy declaration)
    let (declaration', definition') ←
      copyDefinition L entry' declaration definition (copy definition)
    return .ysFunction line entry' declaration' definition'
  | .ysAssign line entry code => do
    let entry' ← copyEntry E L entry
    return .ysAssign line entry' (← copy code)
  | .ysBracket line entry arg code => do
    let entry' ← copyEntry E L entry
    let arg' ← copy arg
    return .ysBracket line entry' arg' (← copy code)
  | .ysIf line condition ifTrue ifFalse => do
    let condition' ← copy condition
    let ifTrue' ← copy ifTrue
    return .ysIf line condition' ifTrue' (← copy ifFalse)
  | .ysWhile line condition loop => do
    let condition' ← copy condition
    return .ysWhile line condition' (← copy loop)
  | .ysDo line condition loop => do
    let loop' ← copy loop
    return .ysDo line (← copy condition) loop'
  | .ysRepeat line condition loop => do
    let loop' ← copy loop
    return .ysRepeat line (← copy condition) loop'
  | .ysExpression line expr => return .ysExpression line (← copy expr)
  | .ysReturn line value => return .ysReturn line (← copy value)
  | .ysBreak line => return .ysBreak line
  | .ysContinue line => return .ysContinue line
  | .ysTextdomain line domain => return .ysTextdomain line domain
  | .ysInclude line filename skipped => return .ysInclude line filename skipped
  | .ysFilename line filename => return .ysFilename line filename
  | .ysImport line name => do
    guardCopy ((L.modules name.text).isSome &&
      (E.usage name.text).all fun p => (provided E L name.text p).isSome)
    return .ysImport line name
  | .ysBlock line block => return .ysBlock line (← copy block)
  | .ysSwitch line condition cases defaultcase block => do
    let condition' ← copy condition
    return .ysSwitch line condition' (carriedCases cases) defaultcase (← copy block)

def copyList : List YCode → CopyM (List YCode)
  | [] => return []
  | c :: l => do
    let c' ← copy c
    return c' :: (← copyList l)

def copyEntries : List (YCode × YCode) → CopyM (List (YCode × YCode))
  | [] => return []
  | (k, v) :: l => do
    let k' ← copy k
    let v' ← copy v
    return (k', v') :: (← copyEntries l)

/-- The statements of a block have to be statements. -/
def copyStatements : List YCode → CopyM (List YCode)
  | [] => return []
  | c :: l => do
    let c' ← copy c
    guardCopy c'.isStatement
    return c' :: (← copyStatements l)

def copyTable : List (TableItem YCode) → CopyM (List (TableItem YCode))
  | [] => return []
  | ⟨entry, point, prototype⟩ :: l => do
    let entry' ← copyLocal entry
    let point' ← copyPoint E L point
    let prototype' ← copyTablePrototype L entry' (E.symbol entry) (copy prototype)
    return ⟨entry', point', prototype'⟩ :: (← copyTable l)

end

variable {E L}

lemma copyNode_yeBlock_some_iff {info : BlockInfo} {table : List (TableItem YCode)} {point : Point}
    {statements : List YCode} {n' : Node YCode} {k k' : Links} :
    copyNode E L (.yeBlock info table point statements) k = some (n', k') ↔
      ∃ id k₁, copyHeader E info k = some (id, k₁) ∧
        ∃ table' k₂, copyIf info.hasTable (copyTable E L table) [] k₁ = some (table', k₂) ∧
          ∃ point' k₃, copyPoint E L point k₂ = some (point', k₃) ∧
            ∃ statements', copyStatements E L statements k₃ = some (statements', k') ∧
              n' = .yeBlock { info with id := id } table' point' statements' := by
  simp only [copyNode, CopyM.bind_some_iff, CopyM.pure_some_iff]
  grind

end Copy

end Bytecode

end YastCore
