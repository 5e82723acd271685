import Mathlib.Data.List.DropRight
import YastCore.Lib.Assoc
import YastCore.Lib.Lines
import YastCore.Value.Path

/-!
# The configuration of kernel modules

`ModulesConf`: the entries of `modules.conf` by directive and module, and the index that gives them
their order in the file. The parser reads no state, so it is the list of the calls that it makes.
-/

namespace YastCore.Modules

open Lines

/-! ### Entries -/

inductive Mode where
  | init
  | set
  | reinit
deriving DecidableEq

/-- The order of `std::string`. -/
def textLess (a b : Text) : Bool := decide (a < b)

abbrev EntryArg := List (Text × Text)

/-- The option under which an argument is stored that is no map of options. -/
def magicEntry : Text := ascii "Ctrl and Alt keys stuck -- press Del to continue."

structure ModuleEntry where
  comment : Text
  argument : EntryArg
  dirtyflag : Bool

namespace ModuleEntry

def default : ModuleEntry := ⟨[], [], false⟩

/-- `ModuleEntry::Set`; none if the entry may not be changed. -/
def set (e : ModuleEntry) : Mode → Option ModuleEntry
  | .init => some { e with dirtyflag := false }
  | .set => some { e with dirtyflag := true }
  | .reinit => if e.dirtyflag then none else some e

def setArgument (e : ModuleEntry) (arg : Text) (m : Mode) : ModuleEntry :=
  match e.set m with
  | none => e
  | some e => { e with argument := Assoc.insert textLess magicEntry arg e.argument }

def setOption (e : ModuleEntry) (option value : Text) (m : Mode) : ModuleEntry :=
  match e.set m with
  | none => e
  | some e =>
    { e with argument := Assoc.insert textLess option value (Assoc.erase magicEntry e.argument) }

def setOptions (e : ModuleEntry) (arg : EntryArg) (m : Mode) : ModuleEntry :=
  match e.set m with
  | none => e
  | some e => if arg = [] then e else { e with argument := arg }

def setComment (e : ModuleEntry) (com : Text) : ModuleEntry := { e with comment := com }

/-- A comment is given with a newline at its end. -/
def getComment (e : ModuleEntry) : Text :=
  if e.comment = [] then []
  else if e.comment.getLast? = some newline then e.comment
  else e.comment ++ [newline]

end ModuleEntry

/-! ### The configuration -/

abbrev ModuleEntryMap := List (Text × ModuleEntry)

structure ModulesConf where
  modules_conf_map : List (Text × ModuleEntryMap)
  modules_conf_index : List Text
  modified : Bool

def optionsDirective : Text := ascii "options"

/-- The string that stands for an entry in the index. -/
def indexString (directive module : Text) : Text := 46 :: directive ++ 46 :: module

/-- How `writeFile` takes a string of the index apart. -/
def splitIndex (s : Text) : Text × Text :=
  let rest := s.drop 1
  (rest.takeWhile (· != 46), (rest.dropWhile (· != 46)).drop 1)

namespace ModulesConf

def empty : ModulesConf := ⟨[], [], false⟩

/-- `modules_conf_map[directive]` -/
def modules (c : ModulesConf) (directive : Text) : ModuleEntryMap :=
  (Assoc.find directive c.modules_conf_map).getD []

/-- `modules_conf_map[directive][module]`, if it is there. -/
def moduleEntry (c : ModulesConf) (directive module : Text) : Option ModuleEntry :=
  Assoc.find module (c.modules directive)

def isModule (c : ModulesConf) (directive module : Text) : Bool := (c.moduleEntry directive module).isSome

/-- A change of `modules_conf_map[directive][module]`, which is created by it. -/
def change (c : ModulesConf) (directive module : Text) (f : ModuleEntry → ModuleEntry) : ModulesConf :=
  let e := f ((c.moduleEntry directive module).getD .default)
  let entries := Assoc.insert textLess module e (c.modules directive)
  { c with modules_conf_map := Assoc.insert textLess directive entries c.modules_conf_map }

def updateIndex (c : ModulesConf) (directive module : Text) : ModulesConf :=
  if c.isModule directive module then c
  else { c with modules_conf_index := c.modules_conf_index ++ [indexString directive module] }

def touch (c : ModulesConf) (m : Mode) : ModulesConf := { c with modified := c.modified || m == .set }

def setOption (c : ModulesConf) (module option value : Text) (m : Mode) : ModulesConf × Bool :=
  if option = [] ∨ module = [] ∨ value = [] then (c, false)
  else
    (((c.touch m).updateIndex optionsDirective module).change optionsDirective module
      fun e => e.setOption option value m, true)

def setOptions (c : ModulesConf) (module : Text) (arg : EntryArg) (m : Mode) : ModulesConf × Bool :=
  if arg = [] then (c.touch m, false)
  else
    (((c.touch m).updateIndex optionsDirective module).change optionsDirective module
      fun e => e.setOptions arg m, true)

/-- The arguments that `setArgument` does not take. -/
def rejected (directive module arg : Text) : Bool :=
  (directive == ascii "alias" || directive == optionsDirective || directive == ascii "pre-install" ||
    directive == ascii "post-install") && (directive.isEmpty || module.isEmpty || arg.isEmpty)

def setArgument (c : ModulesConf) (directive module arg : Text) (m : Mode) : ModulesConf × Bool :=
  if rejected directive module arg then (c, false)
  else
    (((c.touch m).updateIndex directive module).change directive module
      fun e => e.setArgument arg m, true)

/-- `setComment` does not touch the index. -/
def setComment (c : ModulesConf) (directive module arg : Text) (m : Mode) : ModulesConf × Bool :=
  ((c.touch m).change directive module fun e => e.setComment arg, true)

def removeEntry (c : ModulesConf) (directive module : Text) : ModulesConf × Bool :=
  let c := { c with modified := true }
  if !c.isModule directive module then (c, false)
  else
    let rest := Assoc.erase module (c.modules directive)
    ({ c with
        modules_conf_map :=
          if rest = [] then Assoc.erase directive c.modules_conf_map
          else Assoc.insert textLess directive rest c.modules_conf_map
        modules_conf_index := c.modules_conf_index.filter (· ≠ indexString directive module) }, true)

end ModulesConf

/-- The calls that change a configuration. -/
inductive Call where
  | setOption (module option value : Text) (m : Mode)
  | setOptions (module : Text) (arg : EntryArg) (m : Mode)
  | setArgument (directive module arg : Text) (m : Mode)
  | setComment (directive module arg : Text) (m : Mode)
  | removeEntry (directive module : Text)

def ModulesConf.call (c : ModulesConf) : Call → ModulesConf × Bool
  | .setOption module option value m => c.setOption module option value m
  | .setOptions module arg m => c.setOptions module arg m
  | .setArgument directive module arg m => c.setArgument directive module arg m
  | .setComment directive module arg m => c.setComment directive module arg m
  | .removeEntry directive module => c.removeEntry directive module

/-! ### The parser -/

/-- The characters of `WHITESPACE`. -/
def isWhite (c : UInt8) : Bool := c == 32 || c == 9 || c == 10

def killspaces (s : Text) : Text := (s.dropWhile (· == 32)).rdropWhile (· == 32)

/-- `Y2_STRING`: the next token that is not empty, and what follows it; none at the end. -/
def nextToken : Text → Option (Text × Option Text)
  | [] => none
  | c :: source =>
    if isWhite c then nextToken source
    else
      some ((c :: source).takeWhile (!isWhite ·),
        match (c :: source).dropWhile (!isWhite ·) with
        | [] => none
        | _ :: source => some source)

/-- The loop over the options. -/
def parseOptions (options : EntryArg) : List Text → EntryArg
  | [] => options
  | [buf] =>
    if buf = ascii "-o" then options
    else Assoc.insert textLess (buf.takeWhile (· != 61)) ((buf.dropWhile (· != 61)).drop 1) options
  | buf :: next :: rest =>
    if buf = ascii "-o" then parseOptions (Assoc.insert textLess buf next options) rest
    else
      parseOptions
        (Assoc.insert textLess (buf.takeWhile (· != 61)) ((buf.dropWhile (· != 61)).drop 1) options)
        (next :: rest)

structure ModuleLine where
  directive : Text
  module : Text
  argument : Text
  options : EntryArg
  comment : Text

/-- `ModulesConf::parseLine`; what is missing stays empty. -/
def parseLine (line : Text) : ModuleLine :=
  let comment := if 35 ∈ line then line.dropWhile (· != 35) ++ [newline] else []
  match nextToken (cut (line.takeWhile (· != 35))) with
  | none => ⟨[], [], [], [], comment⟩
  | some (directive, source) =>
    match nextToken (source.getD []) with
    | none => ⟨directive, [], [], [], comment⟩
    | some (module, source) =>
      if directive = optionsDirective then
        let tokens := ((source.getD []).splitOnP isWhite).filter (· ≠ [])
        ⟨directive, module, [], parseOptions [] tokens, comment⟩
      else ⟨directive, module, killspaces (source.getD []), [], comment⟩

/-- Where the parser is between two lines of the file: in a line, of which it has read a part that
ends with a backslash or nothing, or in a block of conditions. -/
inductive Place where
  | inLine (line : Text) (backslash : Bool)
  | inBlock

/-- The local variables of `parseFile`, and the calls made so far. -/
structure Parsing where
  place : Place
  comment : Text
  calls : List Call

def finalComment : Text := ascii "YaST2_final_modules_conf_comment"

/-- A line that is complete. -/
def parsedLine (m : Mode) (st : Parsing) (line : Text) : Parsing :=
  let st := { st with place := .inLine [] false }
  if line = [] then { st with comment := st.comment ++ [newline] }
  else
    let line := line.dropWhile isWhite
    if (ascii "if").isPrefixOf line then
      { st with place := .inBlock, comment := st.comment ++ line ++ [newline] }
    else if line.head? = some 35 then { st with comment := st.comment ++ line ++ [newline] }
    else
      let l := parseLine line
      let comment := st.comment ++ l.comment
      let set :=
        if l.directive = optionsDirective then Call.setOptions l.module l.options m
        else Call.setArgument l.directive l.module l.argument m
      { st with comment := [], calls := st.calls ++ [set, .setComment l.directive l.module comment m] }

/-- One successful `getline`. -/
def parseStep (m : Mode) (st : Parsing) (temp_line : Text) : Parsing :=
  let temp_line := temp_line.rdropWhile isWhite
  match st.place with
  | .inBlock =>
    if temp_line = [] then st
    else
      let place := if (ascii "endif").isPrefixOf temp_line then .inLine [] false else .inBlock
      { st with place := place, comment := st.comment ++ temp_line ++ [newline] }
  | .inLine line backslash =>
    if temp_line = [] then if backslash then st else parsedLine m st line
    else if temp_line.getLast? = some 92 then
      { st with place := .inLine (line ++ temp_line.dropLast) true }
    else parsedLine m st (line ++ temp_line)

/-- The `getline` that fails, and the comment at the end. -/
def parseEnd (m : Mode) (st : Parsing) : List Call :=
  let st :=
    match st.place with
    | .inBlock => st
    | .inLine line _ => parsedLine m st line
  if st.comment = [] then st.calls
  else st.calls ++ [.setArgument finalComment [] [] m, .setComment finalComment [] st.comment m]

/-- The lines that `getline` gives: a last one without a newline counts if it is not empty. -/
def fileLines (content : Text) : List Text :=
  let lines := content.splitOn newline
  if lines.getLast? = some [] then lines.dropLast else lines

/-- The calls of `ModulesConf::parseFile`. -/
def parseFile (m : Mode) (content : Text) : List Call :=
  parseEnd m ((fileLines content).foldl (parseStep m) ⟨.inLine [] false, [], []⟩)

/-! ### The writer -/

namespace ModulesConf

def getOptions (c : ModulesConf) (module : Text) : EntryArg :=
  match c.moduleEntry optionsDirective module with
  | none => []
  | some e => if (Assoc.find magicEntry e.argument).isSome then [] else e.argument

def optionText (o : Text × Text) : Text :=
  32 :: o.1 ++ if o.2 = [] then [] else (if o.1 = ascii "-o" then 32 else 61) :: o.2

def getOptionsAsString (c : ModulesConf) (module : Text) : Text := (c.getOptions module).flatMap optionText

def getArgument (c : ModulesConf) (directive module : Text) : Text :=
  match c.moduleEntry directive module with
  | none => []
  | some e => (Assoc.find magicEntry e.argument).getD (c.getOptionsAsString module)

def getComment (c : ModulesConf) (directive module : Text) : Text :=
  match c.moduleEntry directive module with
  | none => []
  | some e => e.getComment

/-- The entries that `writeFile` goes through. -/
def emitted (c : ModulesConf) : List (Text × Text) :=
  (c.modules_conf_index.map splitIndex).filter fun e => c.isModule e.1 e.2

/-- The includes that are written last. -/
def isLocalInclude (e : Text × Text) : Bool :=
  e.1 == ascii "include" && (e.2 == ascii "/etc/modules.conf.local" || e.2 == ascii "/etc/modprobe.conf.local")

/-- What `writeFile` writes of an entry. -/
def entryText (c : ModulesConf) (e : Text × Text) : Text :=
  let (dir, mod) := e
  if dir = optionsDirective then
    c.getComment dir mod ++ (dir ++ 32 :: mod ++ c.getOptionsAsString mod ++ [newline])
  else if dir = ascii "keep" then c.getComment dir mod ++ (dir ++ [newline])
  else if dir = finalComment then c.getComment dir mod
  else c.getComment dir mod ++ (dir ++ 32 :: mod ++ 32 :: c.getArgument dir mod ++ [newline])

/-- The file of `writeFile`; of the local includes the last one is written. -/
def fileText (c : ModulesConf) : Text :=
  (c.emitted.filter (!isLocalInclude ·)).flatMap c.entryText ++
    match (c.emitted.filter isLocalInclude).getLast? with
    | none => []
    | some e => c.entryText e

end ModulesConf

end YastCore.Modules
