import YastCore.Interp.State
import YastCore.Lib.Discipline

/-!
# Evaluation

`YCode::evaluate` of the classes of expressions and statements. With the flag `cse` the method is the
constant check of the parser, without it the interpreter. Each class is a function of the evaluator
that its children are evaluated with; fuel bounds the nesting of these calls, the passes of a loop
and the length of a chain of references.
-/

namespace YastCore.Interp

/-- `evaluate (cse)` of the code at an address. -/
abbrev Evaluator := Bool → CodePtr → M YCPValue

section Classes

variable (P : Program) (fuel : Nat) (evaluate : Evaluator)

/-! ### Expressions -/

def yeVariable (cse : Bool) (entry : EntryRef) : M YCPValue := do
  if cse then return .null
  let value ← entryValue P fuel entry
  if value.isNull then
    if (P.symbol entry).category = .c_function then return .reference entry else return .void
  else return value

def yeTermLoop (cse : Bool) (name : Text) (args : List YCPValue) : List CodePtr → M YCPValue
  | [] => return .term name args
  | p :: ps => do
    let value ← evaluate cse p
    if value.isNull then return .null
    else yeTermLoop cse name (args ++ [value]) ps

def yeTerm (cse : Bool) (name : CText) (parameters : List CodePtr) : M YCPValue :=
  yeTermLoop evaluate cse name.text [] parameters

def yeListLoop (cse : Bool) (list : List YCPValue) : List CodePtr → M YCPValue
  | [] => return .list list
  | element :: elements => do
    let value ← evaluate cse element
    if value.isNull then
      if cse then return value else yeListLoop cse (list ++ [.void]) elements
    else yeListLoop cse (list ++ [value]) elements

def yeList (cse : Bool) (elements : List CodePtr) : M YCPValue :=
  yeListLoop evaluate cse [] elements

/-- The end of a turn of the loop in `YEMap::evaluate`. `YCPMapRep::add` asks the key for its type. -/
def addEntry (map : List (YCPValue × YCPValue)) (key value : YCPValue) :
    M (List (YCPValue × YCPValue)) := do
  record (.mapEntry key value)
  match YCPValue.mapAdd map key value with
  | some map' => return map'
  | none => throw .crash

lemma addEntry_of_some {map map' : List (YCPValue × YCPValue)} {key value : YCPValue}
    (h : YCPValue.mapAdd map key value = some map') (s : State) :
    addEntry map key value s = .ok map' { s with trace := .mapEntry key value :: s.trace } := by
  simp only [addEntry, h]
  rfl

lemma addEntry_of_none {map : List (YCPValue × YCPValue)} {key value : YCPValue}
    (h : YCPValue.mapAdd map key value = none) (s : State) :
    addEntry map key value s = .error .crash { s with trace := .mapEntry key value :: s.trace } := by
  simp only [addEntry, h]
  rfl

def yeMapLoop (cse : Bool) (map : List (YCPValue × YCPValue)) :
    List (CodePtr × CodePtr) → M YCPValue
  | [] => return .map map
  | (k, v) :: elements => do
    let key ← evaluate cse k
    if key.isNull && P.isConstant k then return .null
    else if key.isNull && cse then return key
    else
      let value ← evaluate cse v
      if value.isNull && cse then return value
      else
        let map' ← addEntry map key value
        yeMapLoop cse map' elements

def yeMap (cse : Bool) (entries : List (CodePtr × CodePtr)) : M YCPValue :=
  yeMapLoop P evaluate cse [] entries

/-- `YECompare::cmp_op`. -/
inductive CompareOp where
  | c_eq
  | c_neq
  | c_lt
  | c_ge
  | c_le
  | c_gt
  | unknown
deriving DecidableEq

def CompareOp.ofCode (op : UInt8) : CompareOp :=
  if op = 2 then c_eq
  else if op = 3 then c_neq
  else if op = 4 then c_lt
  else if op = 5 then c_ge
  else if op = 6 then c_le
  else if op = 7 then c_gt
  else unknown

def CompareOp.holds (order : Ordering) : CompareOp → Bool
  | c_eq => order = .eq
  | c_neq => order ≠ .eq
  | c_lt => order = .lt
  | c_ge => order ≠ .lt
  | c_le => order = .eq || order = .lt
  | c_gt => order = .gt
  | unknown => false

/-- The null handle and nil. -/
def isNil (v : YCPValue) : Bool := v.isNull || v.isVoid

def compareValues (op : CompareOp) (vl vr : YCPValue) : M YCPValue :=
  if (isNil vl || isNil vr) && op ≠ .c_eq && op ≠ .c_neq then return .null
  else if isNil vl then
    if op = .c_neq then return .boolean !isNil vr else return .boolean (isNil vr)
  else if isNil vr then return .boolean (op = .c_neq)
  else
    match vl.compare vr with
    | some order => return .boolean (op.holds order)
    | none => throw .crash

def yeCompare (cse : Bool) (left : CodePtr) (op : UInt8) (right : CodePtr) : M YCPValue := do
  if cse then return .null
  let vl ← evaluate cse left
  let vr ← evaluate cse right
  compareValues (.ofCode op) vl vr

def yeLocale (cse : Bool) (singular plural : CText) (count : CodePtr) (domain : CText) :
    M YCPValue := do
  if cse then return .null
  match ← evaluate false count with
  | .integer n => return .string (P.dngettext domain singular plural n)
  | _ => return .null

/-- A conversion to a float is outside the values of the model. -/
def propagate (toType : YType) (v : YCPValue) : M YCPValue :=
  if isNil v then return v
  else if toType.isFloat && v.valuetype = 2 then throw .crash
  else
    match v with
    | .reference e =>
      match toType.matchType (P.symbol e).type with
      | none => throw .crash
      | some n =>
        if n = 0 || YType.canPropagate P.isFunction v toType then return v else return .null
    | _ => if YType.canPropagate P.isFunction v toType then return v else return .null

def yePropagate (cse : Bool) (target : TypeId) (value : CodePtr) : M YCPValue := do
  if cse then return .null
  let v ← evaluate false value
  propagate P (P.type target) v

def yeTriple (cse : Bool) (expr ifTrue ifFalse : CodePtr) : M YCPValue := do
  if cse then return .null
  let value ← evaluate false expr
  if isNil value then evaluate false ifFalse
  else
    match value with
    | .boolean true => evaluate false ifTrue
    | .boolean false => evaluate false ifFalse
    | _ => return .null

/-- The answer of `is` for a value. -/
def isOfType (type : YType) (value : YCPValue) : M YCPValue :=
  let answer (match? : Option Int) : M YCPValue :=
    match match? with
    | some n => return .boolean (0 ≤ n)
    | none => throw .crash
  match value with
  | .code c =>
    if P.isFunction c then answer ((P.codeType c).matchType type)
    else answer ((YType.blockT (P.codeType c) unqualified).matchType type)
  | .reference e => answer ((P.symbol e).type.matchType type)
  | _ => return .boolean (0 ≤ type.matchvalue value)

lemma isOfType_eq (type : YType) (value : YCPValue) :
    isOfType P type value = throw .crash ∨ ∃ b, isOfType P type value = pure (.boolean b) := by
  unfold isOfType
  cases value with
  | code c =>
    dsimp only
    split
    · cases (P.codeType c).matchType type with
      | none => exact .inl rfl
      | some n => exact .inr ⟨_, rfl⟩
    · cases (YType.blockT (P.codeType c) unqualified).matchType type with
      | none => exact .inl rfl
      | some n => exact .inr ⟨_, rfl⟩
  | reference e =>
    dsimp only
    cases (P.symbol e).type.matchType type with
    | none => exact .inl rfl
    | some n => exact .inr ⟨_, rfl⟩
  | _ => exact .inr ⟨_, rfl⟩

def yeIs (cse : Bool) (type : TypeId) (expr : CodePtr) : M YCPValue := do
  let value ← evaluate cse expr
  if value.isNull then return value else isOfType P (P.type type) value

def yeBracket (cse : Bool) (var arg default : CodePtr) : M YCPValue := do
  let varValue ← evaluate cse var
  if cse && varValue.isNull then return .null
  else if isNil varValue then evaluate cse default
  else
    let argValue ← evaluate cse arg
    if cse && argValue.isNull then return .null
    else
      match argValue with
      | .list indices =>
        let result := varValue.bracketLoop indices
        if result.isNull then evaluate cse default else return result
      | _ => evaluate cse default

/-! ### Builtins -/

/-- A builtin at work. -/
def runBuiltin : BuiltinRun → M YCPValue
  | .ret v => return v
  | .crash => throw .crash
  | .evaluate code next => do
    let v ← evaluate false code
    runBuiltin (next v)
  | .value entry next => do
    let v ← entryValue P fuel entry
    runBuiltin (next v)
  | .setValue entry v next => do
    let _ ← setValue P fuel entry v
    runBuiltin next
  | .outside act next => do
    let result := act (← get).world
    modify fun s => { s with world := result.2 }
    runBuiltin (next result.1)

/-- A builtin called through its pointer. -/
def callBuiltin (decl : DeclId) (ptr : Option (List YCPValue → BuiltinRun)) (args : List YCPValue) :
    M YCPValue := do
  match ptr with
  | none => throw .crash
  | some ptr =>
    record (.builtin decl args)
    runBuiltin P fuel evaluate (ptr args)

def yeUnary (cse : Bool) (decl : Option DeclId) (arg : CodePtr) : M YCPValue := do
  if cse then return .null
  let value ← evaluate false arg
  match decl with
  | none => throw .crash
  | some d =>
    match P.builtin d with
    | none => throw .crash
    | some b =>
      if value.isNull && !b.nil then return .null
      else callBuiltin P fuel evaluate d b.ptr [value]

def yeBinary (cse : Bool) (decl : Option DeclId) (arg1 arg2 : CodePtr) : M YCPValue := do
  if cse then return .null
  match decl with
  | none => throw .crash
  | some d =>
    match P.builtin d with
    | none => throw .crash
    | some b =>
      if b.noeval then callBuiltin P fuel evaluate d b.ptr [.code arg1, .code arg2]
      else
        let value1 ← evaluate false arg1
        if isNil value1 && !b.nil then return .null
        else
          let value2 ← evaluate false arg2
          if isNil value2 && !b.nil then return .null
          else callBuiltin P fuel evaluate d b.ptr [value1, value2]

/-- One argument of `YEBuiltin::evaluate`. -/
def builtinArg (b : Builtin) (code : CodePtr) : M YCPValue :=
  if P.isBlock code || b.noeval then return .code code
  else
    match P.code code with
    | some (.yConst .ycEntry value) => return value
    | _ => evaluate false code

/-- The loop over the arguments; `none` when one of them is nil and may not be. -/
def builtinArgs (b : Builtin) (args : List YCPValue) : List CodePtr → M (Option (List YCPValue))
  | [] => return some args
  | code :: codes => do
    let value ← builtinArg P evaluate b code
    if isNil value && !b.nil then return none
    else builtinArgs b (args ++ [value]) codes

def maxargs : Nat := 10

/-- From the position of `...` on the arguments go into one list. -/
def collectWildcard (parameters : List YType) (args : List YCPValue) : List YCPValue :=
  match (List.range args.length).find? fun i => (YType.parameterType parameters i).isWildcard with
  | some typepos => args.take typepos ++ [.list (args.drop typepos)]
  | none => args

/-- The array of arguments, of which the builtin gets as many as its type has parameters. -/
def passedArgs (count : Nat) (args : List YCPValue) : List YCPValue :=
  (args ++ List.replicate (maxargs - args.length) YCPValue.null).take count

/-- `body` between `pushToStack` and `popFromStack`. -/
def withPushed (entries : List EntryRef) (body : M YCPValue) : M YCPValue := do
  pushAll entries
  let v ← body
  popAll entries
  return v

def blockVariables (block : CodePtr) : List EntryRef :=
  match P.code block with
  | some (.yeBlock info _ _ _) => P.variableSymbols info
  | _ => []

/-- The end of `YEBuiltin::evaluate`, with the arguments evaluated. -/
def applyBuiltin (d : DeclId) (b : Builtin) (parameterblock : CodePtr) (args : List YCPValue) :
    M YCPValue :=
  let args := collectWildcard b.parameters args
  let count := b.parameters.length
  if b.ptr.isNone then return .null
  else
    match b.handler with
    | some (some handler) => callBuiltin P fuel evaluate d (some handler) (passedArgs maxargs args)
    | some none => return .null
    | none =>
      withPushed (blockVariables P parameterblock) <|
        if count ≤ 5 then callBuiltin P fuel evaluate d b.ptr (passedArgs count args)
        else return .null

def yeBuiltin (cse : Bool) (decl : Option DeclId) (parameterblock : CodePtr)
    (parameters : List CodePtr) : M YCPValue := do
  if cse then return .null
  match decl with
  | none => throw .crash
  | some d =>
    match P.builtin d with
    | none => throw .crash
    | some b =>
      match ← builtinArgs P evaluate b [] (parameters.take maxargs) with
      | none => return .null
      | some args =>
        if maxargs < parameters.length then return .null
        else applyBuiltin P fuel evaluate d b parameterblock args

/-! ### Calls -/

/-- The formal parameters get their values; false when one is missing. -/
def bindFormals (parameters : List YCPValue) : Nat → List EntryRef → M Bool
  | _, [] => return true
  | p, formal :: formals => do
    match parameters[p]? with
    | none => throw .crash
    | some value =>
      if value.isNull then return false
      else
        let _ ← setValue P fuel formal value
        bindFormals parameters (p + 1) formals

/-- The body of `Y2YCPFunction::evaluateCall`. The formal parameters stay pushed when the function
is only declared. -/
def runFunction (call : FunctionCall) : M YCPValue := do
  match P.code (P.symbol call.sentry).code with
  | some (.ycFunction declaration definition) =>
    let formals := P.formals declaration
    pushAll formals
    match P.code definition with
    | none => return .null
    | some _ =>
      let bound ← bindFormals P fuel call.parameters 0 formals
      if bound then
        let value ← evaluate false definition
        popAll formals
        return value
      else
        popAll formals
        return .null
  | _ => throw .crash

/-- `Y2YCPFunction::evaluateCall`, counted. -/
def evaluateCall (call : FunctionCall) : M YCPValue := do
  modify fun s => { s with
    depth := s.depth + 1, trace := .enters (s.depth + 1) s.unframed :: s.trace }
  let value ← runFunction P fuel evaluate call
  modify fun s => { s with depth := s.depth - 1 }
  return value

/-- A call for which no frame is pushed. -/
def unframedCall (call : FunctionCall) : M YCPValue := do
  modify fun s => { s with unframed := s.unframed + 1 }
  let value ← evaluateCall P fuel evaluate call
  modify fun s => { s with unframed := s.unframed - 1 }
  return value

/-- The arguments of a call; `none` when one of them fails. -/
def evaluateParameters (args : List YCPValue) : List CodePtr → M (Option (List YCPValue))
  | [] => return some args
  | p :: ps => do
    let value ← evaluate false p
    if value.isNull then return none
    else evaluateParameters (args ++ [value]) ps

/-- The arguments are attached to the call object of the node. -/
def attachArgs (node : CodePtr) (args : List YCPValue) : M Unit := do
  match (← get).functioncall node with
  | none => throw .crash
  | some call =>
    match attachParameters P call 0 args with
    | none => throw .crash
    | some call => setFunctionCall node call

/-- An activation of a call node that designates `f`, up to the call. -/
def prepareCall (node : CodePtr) (f : EntryRef) (parameters : List CodePtr) :
    M (Option (List YCPValue)) := do
  modify fun s => { s with
    trace := .begins node f s.pending :: s.trace, pending := (node, f) :: s.pending }
  let args ← evaluateParameters evaluate [] parameters
  modify fun s => { s with pending := s.pending.tail }
  match args with
  | none => return none
  | some args =>
    attachArgs P node args
    return some args

section

variable {P evaluate} {node : CodePtr} {f : EntryRef} {parameters : List CodePtr} {s s' : State}

lemma prepareCall_of_error {e : Fault} (h : evaluateParameters evaluate [] parameters { s with
      trace := .begins node f s.pending :: s.trace, pending := (node, f) :: s.pending } = .error e s') :
    prepareCall P evaluate node f parameters s = .error e s' := by
  unfold prepareCall
  rw [EState.modify_bind, EState.bind_apply, h]

lemma prepareCall_of_none (h : evaluateParameters evaluate [] parameters { s with
      trace := .begins node f s.pending :: s.trace, pending := (node, f) :: s.pending } = .ok none s') :
    prepareCall P evaluate node f parameters s =
      (pure none : M _) { s' with pending := s'.pending.tail } := by
  unfold prepareCall
  rw [EState.modify_bind, EState.bind_of_ok h, EState.modify_bind]

lemma prepareCall_of_some {args : List YCPValue} (h : evaluateParameters evaluate [] parameters { s with
      trace := .begins node f s.pending :: s.trace, pending := (node, f) :: s.pending } =
        .ok (some args) s') :
    prepareCall P evaluate node f parameters s =
      (attachArgs P node args >>= fun _ => pure (some args)) { s' with pending := s'.pending.tail } := by
  unfold prepareCall
  rw [EState.modify_bind, EState.bind_of_ok h, EState.modify_bind]

end

/-- The call object of a node as it is called, observed together with what the activation had in
mind. -/
def takeCall (node : CodePtr) (f : EntryRef) (args : List YCPValue) : M FunctionCall := do
  match (← get).functioncall node with
  | none => throw .crash
  | some call =>
    record (.calls node f args call)
    return call

/-- The call object of a `YEFunction`, created once and then reset. -/
def directCall (node : CodePtr) (entry : EntryRef) : M (Option EntryRef) := do
  match (← get).functioncall node with
  | none =>
    match P.createFunctionCall entry with
    | none => return none
    | some f =>
      setFunctionCall node (.fresh P f)
      return some f
  | some call =>
    setFunctionCall node (.fresh P call.sentry)
    return some call.sentry

/-- The call between `pushframe` and `popframe`. -/
def framedCall (node : CodePtr) (args : List YCPValue) (call : FunctionCall) : M YCPValue := do
  modify fun s => { s with backtrace := (node, args) :: s.backtrace }
  let value ← evaluateCall P fuel evaluate call
  modify fun s => { s with backtrace := s.backtrace.tail }
  return value

def yeFunction (cse : Bool) (node : CodePtr) (entry : EntryRef) (parameters : List CodePtr) :
    M YCPValue := do
  if cse then return .null
  match ← directCall P node entry with
  | none => return .void
  | some f =>
    match ← prepareCall P evaluate node f parameters with
    | none => return .null
    | some args =>
      if (← get).backtrace.length = P.recursionLimit then return .void
      else
        let call ← takeCall node f args
        framedCall P fuel evaluate node args call

def yeFunctionPointer (cse : Bool) (node : CodePtr) (entry : EntryRef) (parameters : List CodePtr) :
    M YCPValue := do
  if cse then return .null
  match ← entryValue P fuel entry with
  | .reference designated =>
    match P.createFunctionCall designated with
    | none => return .void
    | some f =>
      setFunctionCall node (.fresh P f)
      match ← prepareCall P evaluate node f parameters with
      | none => return .null
      | some args =>
        let call ← takeCall node f args
        unframedCall P fuel evaluate call
  | _ => return .void

/-! ### Blocks and statements -/

/-- The statements of a block up to the first that yields a value; null at the end of the block. -/
def runStatements : List CodePtr → M YCPValue
  | [] => return .null
  | statement :: statements => do
    let value ← evaluate false statement
    if value.isNull then runStatements statements else return value

def setRunning (block : CodePtr) (b : Bool) : M Unit :=
  modify fun s => { s with running := Function.update s.running block b }

/-- The block of `statements`, from `m_running = true` on. -/
def runBlock (block : CodePtr) (wasRunning : Bool) (statements : List CodePtr) : M YCPValue := do
  setRunning block true
  let value ← runStatements evaluate statements
  setRunning block wasRunning
  return value

/-- What a block yields for the value that ended its statements. -/
def blockValue (kind : BlockKind) (value : YCPValue) : YCPValue :=
  if value.isNull then if kind = .b_statement then .null else .void
  else value

/-- The recursion handling of `YBlock::evaluate`, which is not used for modules. -/
def inScope (info : BlockInfo) (wasRunning : Bool) (body : M YCPValue) : M YCPValue :=
  if info.kind ≠ .b_module && wasRunning then withPushed (P.variableSymbols info) body else body

def yBlock (cse : Bool) (block : CodePtr) (info : BlockInfo) (statements : List CodePtr) :
    M YCPValue := do
  if cse then return .null
  let wasRunning := (← get).running block
  let value ← inScope P info wasRunning (runBlock evaluate block wasRunning statements)
  return blockValue info.kind value

/-- The recursion handling of `YBlock::evaluateFrom`, which pushes the variables of a module too but
does not pop them. -/
def inScopeFrom (info : BlockInfo) (wasRunning : Bool) (body : M YCPValue) : M YCPValue := do
  if info.kind = .b_module && wasRunning then
    pushAll (P.variableSymbols info)
    body
  else inScope P info wasRunning body

def evaluateFrom (block : CodePtr) (statementIndex : Int32) : M YCPValue := do
  match P.code block with
  | some (.yeBlock info _ _ statements) =>
    let wasRunning := (← get).running block
    let rest := statements.drop statementIndex.toInt.toNat
    let value ← inScopeFrom P info wasRunning (runBlock evaluate block wasRunning rest)
    return blockValue info.kind value
  | _ => throw .crash

/-- The null handle is stored as nil. -/
def orVoid (v : YCPValue) : YCPValue := if v.isNull then .void else v

def ysAssign (cse : Bool) (entry : EntryRef) (code : CodePtr) : M YCPValue := do
  if cse then return .null
  let value ← evaluate false code
  let _ ← setValue P fuel entry (orVoid value)
  return .null

def ysBracket (cse : Bool) (entry : EntryRef) (arg code : CodePtr) : M YCPValue := do
  if cse then return .null
  let argValue ← evaluate false arg
  let newvalue ← evaluate false code
  let value ← entryValue P fuel entry
  match argValue with
  | .list indices =>
    let result := (orVoid value).commit indices (orVoid newvalue)
    if result.isNull then return .null
    else
      let _ ← setValue P fuel entry result
      return .null
  | _ => return .null

/-- Code that may be missing. -/
def evaluateIfAny (cse : Bool) (code : CodePtr) : M YCPValue :=
  match P.code code with
  | some _ => evaluate cse code
  | none => return .null

def ysIf (cse : Bool) (condition ifTrue ifFalse : CodePtr) : M YCPValue := do
  match ← evaluate cse condition with
  | .null => return .null
  | .boolean true => evaluateIfAny P evaluate cse ifTrue
  | _ => evaluateIfAny P evaluate cse ifFalse

/-- The body of a loop, if there is one. -/
def loopBody (loop : CodePtr) : Option (M YCPValue) :=
  match P.code loop with
  | some _ => some (evaluate false loop)
  | none => none

def ysReturn (cse : Bool) (value : CodePtr) : M YCPValue := do
  if cse then return .null
  let v ← evaluateIfAny P evaluate false value
  if isNil v then return .ret else return v

/-- `Y2Namespace::initialize`. -/
def initializeModule (name : Text) (m : Module) : M Unit := do
  if (← get).initialized name then return
  else
    modify fun s => { s with initialized := Function.update s.initialized name true }
    let _ ← evaluate false m.block
    match m.constructor with
    | none => return
    | some f =>
      let _ ← unframedCall P fuel evaluate (.fresh P f)
      return

def ysImport (cse : Bool) (name : CText) : M YCPValue := do
  if cse then return .null
  match P.module name.text with
  | none => return .null
  | some m =>
    initializeModule P fuel evaluate name.text m
    return .null

/-- The case of a `switch` for a value: `find` of the map of cases. -/
def findCase (cases : List (YCPValue × Int32)) (v : YCPValue) : Option Int32 :=
  (cases.find? fun c => !YCPValue.keyLess c.1 v && !YCPValue.keyLess v c.1).map Prod.snd

def dropBreak (v : YCPValue) : YCPValue := if v.isBreak then .null else v

def ysSwitch (cse : Bool) (condition : CodePtr) (cases : List (YCPValue × Int32))
    (defaultcase : Int32) (block : CodePtr) : M YCPValue := do
  if cse then return .null
  let value ← evaluate false condition
  if value.isNull then return .null
  else
    match findCase cases value with
    | some index =>
      let res ← evaluateFrom P evaluate block index
      return dropBreak res
    | none =>
      if defaultcase ≠ -1 then
        let res ← evaluateFrom P evaluate block defaultcase
        return dropBreak res
      else return .null

/-! ### All classes -/

/-- `evaluate` of a node at an address. -/
def evaluateNode (cse : Bool) (ptr : CodePtr) : Node CodePtr → M YCPValue
  | .yConst _ value => return value
  | .ycLocale locale domain =>
    if cse then return .null else return .string (P.dgettext domain locale)
  | .ycFunction _ _ => return .code ptr
  | .yePropagate _ target value => yePropagate P evaluate cse target value
  | .yeUnary decl arg => yeUnary P fuel evaluate cse decl arg
  | .yeBinary decl arg1 arg2 => yeBinary P fuel evaluate cse decl arg1 arg2
  | .yeTriple expr ifTrue ifFalse => yeTriple evaluate cse expr ifTrue ifFalse
  | .yeCompare left op right => yeCompare evaluate cse left op right
  | .yeLocale singular plural count domain => yeLocale P evaluate cse singular plural count domain
  | .yeList elements => yeList evaluate cse elements
  | .yeMap entries => yeMap P evaluate cse entries
  | .yeTerm name parameters => yeTerm evaluate cse name parameters
  | .yeIs type expr => yeIs P evaluate cse type expr
  | .yeBracket var arg default _ => yeBracket evaluate cse var arg default
  | .yeBlock info _ _ statements => yBlock P evaluate cse ptr info statements
  | .yeReturn expr => return .code expr
  | .yeVariable entry => yeVariable P fuel cse entry
  | .yeBuiltin _ decl parameterblock parameters =>
    yeBuiltin P fuel evaluate cse decl parameterblock parameters
  | .yeFunction entry parameters => yeFunction P fuel evaluate cse ptr entry parameters
  | .yeReference entry => if cse then return .null else return .reference entry
  | .yeFunctionPointer entry parameters => yeFunctionPointer P fuel evaluate cse ptr entry parameters
  | .ysTypedef _ _ _ => return .null
  | .ysVariable _ entry code => ysAssign P fuel evaluate cse entry code
  | .ysFunction _ _ _ _ => return .null
  | .ysAssign _ entry code => ysAssign P fuel evaluate cse entry code
  | .ysBracket _ entry arg code => ysBracket P fuel evaluate cse entry arg code
  | .ysIf _ condition ifTrue ifFalse => ysIf P evaluate cse condition ifTrue ifFalse
  | .ysWhile _ condition loop =>
    if cse then return .null else ysWhile (evaluate false condition) (loopBody P evaluate loop) fuel
  | .ysDo _ condition loop =>
    if cse then return .null else ysDo (evaluate false condition) (loopBody P evaluate loop) fuel
  | .ysRepeat _ condition loop =>
    if cse then return .null else ysRepeat (evaluate false condition) (loopBody P evaluate loop) fuel
  | .ysExpression _ expr => do
    let _ ← evaluate cse expr
    return .null
  | .ysReturn _ value => ysReturn P evaluate cse value
  | .ysBreak _ => return .brk
  | .ysContinue _ => return .void
  | .ysTextdomain _ _ => return .null
  | .ysInclude _ _ _ => return .null
  | .ysFilename _ _ => return .null
  | .ysImport _ name => ysImport P fuel evaluate cse name
  | .ysBlock _ block => evaluate cse block
  | .ysSwitch _ condition cases defaultcase block =>
    ysSwitch P evaluate cse condition cases defaultcase block

end Classes

/-- `code->evaluate (cse)`; a call through the null pointer is a crash. -/
def evaluate (P : Program) : Nat → Evaluator
  | 0, _, _ => throw .outOfFuel
  | fuel + 1, cse, ptr =>
    match P.code ptr with
    | none => throw .crash
    | some node => evaluateNode P fuel (evaluate P fuel) cse ptr node

end YastCore.Interp
