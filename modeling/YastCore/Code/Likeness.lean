import Mathlib.Data.List.Forall2
import YastCore.Code.Basic

/-!
# Nodes that are alike

Two nodes are alike when evaluation cannot tell them apart, given what is alike of the code they point to
and of the symbols, values, types, builtins and blocks they name. Line numbers, the source type of a cast,
the table and the point of a block and the parts of a function statement are not evaluated.
-/

namespace YastCore

/-- What is alike of the parts of two nodes that are not code. -/
structure Likeness where
  entry : EntryRef → EntryRef → Prop
  value : YCPValue → YCPValue → Prop
  type : TypeId → TypeId → Prop
  decl : DeclId → DeclId → Prop
  block : BlockInfo → BlockInfo → Prop

namespace Likeness

/-- Nothing may differ. -/
@[reducible] def same : Likeness := ⟨Eq, Eq, Eq, Eq, Eq⟩

/-- What is alike for the first is alike for the second. -/
structure Le (r s : Likeness) : Prop where
  entry : ∀ {e e'}, r.entry e e' → s.entry e e'
  value : ∀ {v v'}, r.value v v' → s.value v v'
  type : ∀ {t t'}, r.type t t' → s.type t t'
  decl : ∀ {d d'}, r.decl d d' → s.decl d d'
  block : ∀ {info info'}, r.block info info' → s.block info info'

variable {r s : Likeness}

lemma Le.decls (hr : r.Le s) {d d' e e' : Option DeclId} (h : Option.Rel Eq d e) (hdecl : Option.Rel r.decl e e')
    (h' : Option.Rel Eq d' e') : Option.Rel s.decl d d' := by
  cases hdecl with
  | none =>
    cases h
    cases h'
    exact .none
  | some hdecl =>
    cases h with | some h =>
    cases h' with | some h' =>
    subst h h'
    exact .some (hr.decl hdecl)

lemma Le.values (hr : r.Le s) {l l' m m' : List YCPValue} (h : List.Forall₂ Eq l m)
    (hvalues : List.Forall₂ r.value m m') (h' : List.Forall₂ Eq l' m') : List.Forall₂ s.value l l' := by
  rw [List.forall₂_eq_eq_eq] at h h'
  subst h h'
  exact hvalues.imp fun _ _ hv => hr.value hv

end Likeness

variable {κ κ' : Type}

inductive Node.Like (code : κ → κ' → Prop) (r : Likeness) : Node κ → Node κ' → Prop where
  | yConst {kind : ConstKind} {v v' : YCPValue} (value : r.value v v') : Like code r (.yConst kind v) (.yConst kind v')
  | ycLocale (locale domain : CText) : Like code r (.ycLocale locale domain) (.ycLocale locale domain)
  | ycFunction {declaration definition : κ} {declaration' definition' : κ'}
      (hdeclaration : code declaration declaration') (hdefinition : code definition definition') :
      Like code r (.ycFunction declaration definition) (.ycFunction declaration' definition')
  | yePropagate {source source' target target' : TypeId} {value : κ} {value' : κ'} (htype : r.type target target')
      (hvalue : code value value') :
      Like code r (.yePropagate source target value) (.yePropagate source' target' value')
  | yeUnary {decl decl' : Option DeclId} {arg : κ} {arg' : κ'} (hdecl : Option.Rel r.decl decl decl')
      (harg : code arg arg') : Like code r (.yeUnary decl arg) (.yeUnary decl' arg')
  | yeBinary {decl decl' : Option DeclId} {arg1 arg2 : κ} {arg1' arg2' : κ'} (hdecl : Option.Rel r.decl decl decl')
      (harg1 : code arg1 arg1') (harg2 : code arg2 arg2') :
      Like code r (.yeBinary decl arg1 arg2) (.yeBinary decl' arg1' arg2')
  | yeTriple {expr ifTrue ifFalse : κ} {expr' ifTrue' ifFalse' : κ'} (hexpr : code expr expr')
      (htrue : code ifTrue ifTrue') (hfalse : code ifFalse ifFalse') :
      Like code r (.yeTriple expr ifTrue ifFalse) (.yeTriple expr' ifTrue' ifFalse')
  | yeCompare {left right : κ} {left' right' : κ'} (op : UInt8) (hleft : code left left')
      (hright : code right right') : Like code r (.yeCompare left op right) (.yeCompare left' op right')
  | yeLocale (singular plural domain : CText) {count : κ} {count' : κ'} (hcount : code count count') :
      Like code r (.yeLocale singular plural count domain) (.yeLocale singular plural count' domain)
  | yeList {elements : List κ} {elements' : List κ'} (helements : List.Forall₂ code elements elements') :
      Like code r (.yeList elements) (.yeList elements')
  | yeMap {entries : List (κ × κ)} {entries' : List (κ' × κ')}
      (hkeys : List.Forall₂ code (entries.map Prod.fst) (entries'.map Prod.fst))
      (hvalues : List.Forall₂ code (entries.map Prod.snd) (entries'.map Prod.snd)) :
      Like code r (.yeMap entries) (.yeMap entries')
  | yeTerm (name : CText) {parameters : List κ} {parameters' : List κ'}
      (hparameters : List.Forall₂ code parameters parameters') :
      Like code r (.yeTerm name parameters) (.yeTerm name parameters')
  | yeIs {type type' : TypeId} {expr : κ} {expr' : κ'} (htype : r.type type type') (hexpr : code expr expr') :
      Like code r (.yeIs type expr) (.yeIs type' expr')
  | yeBracket {var arg default : κ} {var' arg' default' : κ'} {type type' : Option TypeId} (hvar : code var var')
      (harg : code arg arg') (hdefault : code default default') :
      Like code r (.yeBracket var arg default type) (.yeBracket var' arg' default' type')
  | yeBlock {info info' : BlockInfo} {table : List (TableItem κ)} {table' : List (TableItem κ')}
      {point point' : Point} {statements : List κ} {statements' : List κ'} (hinfo : r.block info info')
      (hstatements : List.Forall₂ code statements statements') :
      Like code r (.yeBlock info table point statements) (.yeBlock info' table' point' statements')
  | yeReturn {expr : κ} {expr' : κ'} (hexpr : code expr expr') : Like code r (.yeReturn expr) (.yeReturn expr')
  | yeVariable {entry entry' : EntryRef} (hentry : r.entry entry entry') :
      Like code r (.yeVariable entry) (.yeVariable entry')
  | yeBuiltin {type type' : Option TypeId} {decl decl' : Option DeclId} {block : κ} {block' : κ'}
      {parameters : List κ} {parameters' : List κ'} (hdecl : Option.Rel r.decl decl decl')
      (hblock : code block block') (hparameters : List.Forall₂ code parameters parameters') :
      Like code r (.yeBuiltin type decl block parameters) (.yeBuiltin type' decl' block' parameters')
  | yeFunction {entry entry' : EntryRef} {parameters : List κ} {parameters' : List κ'} (hentry : r.entry entry entry')
      (hparameters : List.Forall₂ code parameters parameters') :
      Like code r (.yeFunction entry parameters) (.yeFunction entry' parameters')
  | yeReference {entry entry' : EntryRef} (hentry : r.entry entry entry') :
      Like code r (.yeReference entry) (.yeReference entry')
  | yeFunctionPointer {entry entry' : EntryRef} {parameters : List κ} {parameters' : List κ'}
      (hentry : r.entry entry entry') (hparameters : List.Forall₂ code parameters parameters') :
      Like code r (.yeFunctionPointer entry parameters) (.yeFunctionPointer entry' parameters')
  | ysTypedef {line line' : UInt32} {name name' : CText} {type type' : TypeId} :
      Like code r (.ysTypedef line name type) (.ysTypedef line' name' type')
  | ysVariable {line line' : UInt32} {entry entry' : EntryRef} {value : κ} {value' : κ'}
      (hentry : r.entry entry entry') (hvalue : code value value') :
      Like code r (.ysVariable line entry value) (.ysVariable line' entry' value')
  | ysFunction {line line' : UInt32} {entry entry' : EntryRef} {declaration definition : κ}
      {declaration' definition' : κ'} :
      Like code r (.ysFunction line entry declaration definition) (.ysFunction line' entry' declaration' definition')
  | ysAssign {line line' : UInt32} {entry entry' : EntryRef} {value : κ} {value' : κ'}
      (hentry : r.entry entry entry') (hvalue : code value value') :
      Like code r (.ysAssign line entry value) (.ysAssign line' entry' value')
  | ysBracket {line line' : UInt32} {entry entry' : EntryRef} {arg value : κ} {arg' value' : κ'}
      (hentry : r.entry entry entry') (harg : code arg arg') (hvalue : code value value') :
      Like code r (.ysBracket line entry arg value) (.ysBracket line' entry' arg' value')
  | ysIf {line line' : UInt32} {condition ifTrue ifFalse : κ} {condition' ifTrue' ifFalse' : κ'}
      (hcondition : code condition condition') (htrue : code ifTrue ifTrue') (hfalse : code ifFalse ifFalse') :
      Like code r (.ysIf line condition ifTrue ifFalse) (.ysIf line' condition' ifTrue' ifFalse')
  | ysWhile {line line' : UInt32} {condition loop : κ} {condition' loop' : κ'}
      (hcondition : code condition condition') (hloop : code loop loop') :
      Like code r (.ysWhile line condition loop) (.ysWhile line' condition' loop')
  | ysDo {line line' : UInt32} {condition loop : κ} {condition' loop' : κ'}
      (hcondition : code condition condition') (hloop : code loop loop') :
      Like code r (.ysDo line condition loop) (.ysDo line' condition' loop')
  | ysRepeat {line line' : UInt32} {condition loop : κ} {condition' loop' : κ'}
      (hcondition : code condition condition') (hloop : code loop loop') :
      Like code r (.ysRepeat line condition loop) (.ysRepeat line' condition' loop')
  | ysExpression {line line' : UInt32} {expr : κ} {expr' : κ'} (hexpr : code expr expr') :
      Like code r (.ysExpression line expr) (.ysExpression line' expr')
  | ysReturn {line line' : UInt32} {value : κ} {value' : κ'} (hvalue : code value value') :
      Like code r (.ysReturn line value) (.ysReturn line' value')
  | ysBreak {line line' : UInt32} : Like code r (.ysBreak line) (.ysBreak line')
  | ysContinue {line line' : UInt32} : Like code r (.ysContinue line) (.ysContinue line')
  | ysTextdomain {line line' : UInt32} {domain domain' : CText} :
      Like code r (.ysTextdomain line domain) (.ysTextdomain line' domain')
  | ysInclude {line line' : UInt32} {filename filename' : CText} {skipped skipped' : Bool} :
      Like code r (.ysInclude line filename skipped) (.ysInclude line' filename' skipped')
  | ysFilename {line line' : UInt32} {filename filename' : CText} :
      Like code r (.ysFilename line filename) (.ysFilename line' filename')
  | ysImport {line line' : UInt32} (name : CText) : Like code r (.ysImport line name) (.ysImport line' name)
  | ysBlock {line line' : UInt32} {block : κ} {block' : κ'} (hblock : code block block') :
      Like code r (.ysBlock line block) (.ysBlock line' block')
  | ysSwitch {line line' : UInt32} {condition block : κ} {condition' block' : κ'}
      {cases cases' : List (YCPValue × Int32)} (defaultcase : Int32) (hcondition : code condition condition')
      (hvalues : List.Forall₂ r.value (cases.map Prod.fst) (cases'.map Prod.fst))
      (hindices : cases.map Prod.snd = cases'.map Prod.snd) (hblock : code block block') :
      Like code r (.ysSwitch line condition cases defaultcase block)
        (.ysSwitch line' condition' cases' defaultcase block')

namespace Node

/-! ### The code of a node -/

/-- The code that the evaluation of a node may go on with. -/
def evaluated : Node κ → List κ
  | yeBlock _ _ _ statements => statements
  | ysFunction _ _ _ _ => []
  | n => n.children

variable {code : κ → κ' → Prop} {r : Likeness} {n : Node κ} {n' : Node κ'}

lemma forall₂_flatMap_pairs {l : List (κ × κ)} {l' : List (κ' × κ')}
    (h : List.Forall₂ code (l.map Prod.fst) (l'.map Prod.fst))
    (h' : List.Forall₂ code (l.map Prod.snd) (l'.map Prod.snd)) :
    List.Forall₂ code (l.flatMap fun e => [e.1, e.2]) (l'.flatMap fun e => [e.1, e.2]) := by
  induction l generalizing l' with
  | nil =>
    cases l' with
    | nil => exact .nil
    | cons e' l' => cases h
  | cons e l ih =>
    cases l' with
    | nil => cases h
    | cons e' l' =>
      cases h with
      | cons hkey h =>
        cases h' with
        | cons hvalue h' => exact .cons hkey (.cons hvalue (ih h h'))

lemma Like.evaluated (h : Like code r n n') : List.Forall₂ code n.evaluated n'.evaluated := by
  cases h with
  | ycFunction hdeclaration hdefinition => exact .cons hdeclaration (.cons hdefinition .nil)
  | yePropagate _ hvalue => exact .cons hvalue .nil
  | yeUnary _ harg => exact .cons harg .nil
  | yeBinary _ harg1 harg2 => exact .cons harg1 (.cons harg2 .nil)
  | yeTriple hexpr htrue hfalse => exact .cons hexpr (.cons htrue (.cons hfalse .nil))
  | yeCompare _ hleft hright => exact .cons hleft (.cons hright .nil)
  | yeLocale _ _ _ hcount => exact .cons hcount .nil
  | yeList helements => exact helements
  | yeMap hkeys hvalues => exact forall₂_flatMap_pairs hkeys hvalues
  | yeTerm _ hparameters => exact hparameters
  | yeIs _ hexpr => exact .cons hexpr .nil
  | yeBracket hvar harg hdefault => exact .cons hvar (.cons harg (.cons hdefault .nil))
  | yeBlock _ hstatements => exact hstatements
  | yeReturn hexpr => exact .cons hexpr .nil
  | yeBuiltin _ hblock hparameters => exact .cons hblock hparameters
  | yeFunction _ hparameters => exact hparameters
  | yeFunctionPointer _ hparameters => exact hparameters
  | ysVariable _ hvalue => exact .cons hvalue .nil
  | ysAssign _ hvalue => exact .cons hvalue .nil
  | ysBracket _ harg hvalue => exact .cons harg (.cons hvalue .nil)
  | ysIf hcondition htrue hfalse => exact .cons hcondition (.cons htrue (.cons hfalse .nil))
  | ysWhile hcondition hloop => exact .cons hcondition (.cons hloop .nil)
  | ysDo hcondition hloop => exact .cons hcondition (.cons hloop .nil)
  | ysRepeat hcondition hloop => exact .cons hcondition (.cons hloop .nil)
  | ysExpression hexpr => exact .cons hexpr .nil
  | ysReturn hvalue => exact .cons hvalue .nil
  | ysBlock hblock => exact .cons hblock .nil
  | ysSwitch _ hcondition _ _ hblock => exact .cons hcondition (.cons hblock .nil)
  | _ => exact .nil

/-- The node is of the same kind, and the parts that are not code are alike. -/
def Resembles (r : Likeness) (n : Node κ) : Node κ' → Prop
  | yConst kind v' => ∃ v, n = yConst kind v ∧ r.value v v'
  | ycLocale locale domain => n = ycLocale locale domain
  | ycFunction _ _ => ∃ declaration definition, n = ycFunction declaration definition
  | yePropagate _ target' _ => ∃ source target value, n = yePropagate source target value ∧ r.type target target'
  | yeUnary decl' _ => ∃ decl arg, n = yeUnary decl arg ∧ Option.Rel r.decl decl decl'
  | yeBinary decl' _ _ => ∃ decl arg1 arg2, n = yeBinary decl arg1 arg2 ∧ Option.Rel r.decl decl decl'
  | yeTriple _ _ _ => ∃ expr ifTrue ifFalse, n = yeTriple expr ifTrue ifFalse
  | yeCompare _ op _ => ∃ left right, n = yeCompare left op right
  | yeLocale singular plural _ domain => ∃ count, n = yeLocale singular plural count domain
  | yeList _ => ∃ elements, n = yeList elements
  | yeMap _ => ∃ entries, n = yeMap entries
  | yeTerm name _ => ∃ parameters, n = yeTerm name parameters
  | yeIs type' _ => ∃ type expr, n = yeIs type expr ∧ r.type type type'
  | yeBracket _ _ _ _ => ∃ var arg default type, n = yeBracket var arg default type
  | yeBlock info' _ _ _ => ∃ info table point statements, n = yeBlock info table point statements ∧ r.block info info'
  | yeReturn _ => ∃ expr, n = yeReturn expr
  | yeVariable entry' => ∃ entry, n = yeVariable entry ∧ r.entry entry entry'
  | yeBuiltin _ decl' _ _ =>
    ∃ type decl block parameters, n = yeBuiltin type decl block parameters ∧ Option.Rel r.decl decl decl'
  | yeFunction entry' _ => ∃ entry parameters, n = yeFunction entry parameters ∧ r.entry entry entry'
  | yeReference entry' => ∃ entry, n = yeReference entry ∧ r.entry entry entry'
  | yeFunctionPointer entry' _ => ∃ entry parameters, n = yeFunctionPointer entry parameters ∧ r.entry entry entry'
  | ysTypedef _ _ _ => ∃ line name type, n = ysTypedef line name type
  | ysVariable _ entry' _ => ∃ line entry value, n = ysVariable line entry value ∧ r.entry entry entry'
  | ysFunction _ _ _ _ => ∃ line entry declaration definition, n = ysFunction line entry declaration definition
  | ysAssign _ entry' _ => ∃ line entry value, n = ysAssign line entry value ∧ r.entry entry entry'
  | ysBracket _ entry' _ _ => ∃ line entry arg value, n = ysBracket line entry arg value ∧ r.entry entry entry'
  | ysIf _ _ _ _ => ∃ line condition ifTrue ifFalse, n = ysIf line condition ifTrue ifFalse
  | ysWhile _ _ _ => ∃ line condition loop, n = ysWhile line condition loop
  | ysDo _ _ _ => ∃ line condition loop, n = ysDo line condition loop
  | ysRepeat _ _ _ => ∃ line condition loop, n = ysRepeat line condition loop
  | ysExpression _ _ => ∃ line expr, n = ysExpression line expr
  | ysReturn _ _ => ∃ line value, n = ysReturn line value
  | ysBreak _ => ∃ line, n = ysBreak line
  | ysContinue _ => ∃ line, n = ysContinue line
  | ysTextdomain _ _ => ∃ line domain, n = ysTextdomain line domain
  | ysInclude _ _ _ => ∃ line filename skipped, n = ysInclude line filename skipped
  | ysFilename _ _ => ∃ line filename, n = ysFilename line filename
  | ysImport _ name => ∃ line, n = ysImport line name
  | ysBlock _ _ => ∃ line block, n = ysBlock line block
  | ysSwitch _ _ cases' defaultcase _ =>
    ∃ line condition cases block, n = ysSwitch line condition cases defaultcase block ∧
      List.Forall₂ r.value (cases.map Prod.fst) (cases'.map Prod.fst) ∧ cases.map Prod.snd = cases'.map Prod.snd

lemma Like.resembles (h : Like code r n n') : n.Resembles r n' := by
  cases h with
  | yConst value => exact ⟨_, rfl, value⟩
  | ycLocale _ _ => rfl
  | ycFunction _ _ => exact ⟨_, _, rfl⟩
  | yePropagate htype _ => exact ⟨_, _, _, rfl, htype⟩
  | yeUnary hdecl _ => exact ⟨_, _, rfl, hdecl⟩
  | yeBinary hdecl _ _ => exact ⟨_, _, _, rfl, hdecl⟩
  | yeTriple _ _ _ => exact ⟨_, _, _, rfl⟩
  | yeCompare _ _ _ => exact ⟨_, _, rfl⟩
  | yeLocale _ _ _ _ => exact ⟨_, rfl⟩
  | yeList _ => exact ⟨_, rfl⟩
  | yeMap _ _ => exact ⟨_, rfl⟩
  | yeTerm _ _ => exact ⟨_, rfl⟩
  | yeIs htype _ => exact ⟨_, _, rfl, htype⟩
  | yeBracket _ _ _ => exact ⟨_, _, _, _, rfl⟩
  | yeBlock hinfo _ => exact ⟨_, _, _, _, rfl, hinfo⟩
  | yeReturn _ => exact ⟨_, rfl⟩
  | yeVariable hentry => exact ⟨_, rfl, hentry⟩
  | yeBuiltin hdecl _ _ => exact ⟨_, _, _, _, rfl, hdecl⟩
  | yeFunction hentry _ => exact ⟨_, _, rfl, hentry⟩
  | yeReference hentry => exact ⟨_, rfl, hentry⟩
  | yeFunctionPointer hentry _ => exact ⟨_, _, rfl, hentry⟩
  | ysTypedef => exact ⟨_, _, _, rfl⟩
  | ysVariable hentry _ => exact ⟨_, _, _, rfl, hentry⟩
  | ysFunction => exact ⟨_, _, _, _, rfl⟩
  | ysAssign hentry _ => exact ⟨_, _, _, rfl, hentry⟩
  | ysBracket hentry _ _ => exact ⟨_, _, _, _, rfl, hentry⟩
  | ysIf _ _ _ => exact ⟨_, _, _, _, rfl⟩
  | ysWhile _ _ => exact ⟨_, _, _, rfl⟩
  | ysDo _ _ => exact ⟨_, _, _, rfl⟩
  | ysRepeat _ _ => exact ⟨_, _, _, rfl⟩
  | ysExpression _ => exact ⟨_, _, rfl⟩
  | ysReturn _ => exact ⟨_, _, rfl⟩
  | ysBreak => exact ⟨_, rfl⟩
  | ysContinue => exact ⟨_, rfl⟩
  | ysTextdomain => exact ⟨_, _, rfl⟩
  | ysInclude => exact ⟨_, _, _, rfl⟩
  | ysFilename => exact ⟨_, _, rfl⟩
  | ysImport _ => exact ⟨_, rfl⟩
  | ysBlock _ => exact ⟨_, _, rfl⟩
  | ysSwitch _ _ hvalues hindices _ => exact ⟨_, _, _, _, rfl, hvalues, hindices⟩

/-! ### Nodes with other code -/

section Recode

variable {τ : Type} {codeₗ : κ → τ → Prop} {codeᵣ : κ' → τ → Prop} {q : τ → τ → Prop} {s : Likeness} {t t' : Node τ}

lemma forall₂_one {a : κ} {a' : κ'} (h : List.Forall₂ code [a] [a']) : code a a' := by simpa using h

lemma forall₂_two {a b : κ} {a' b' : κ'} (h : List.Forall₂ code [a, b] [a', b']) : code a a' ∧ code b b' := by
  simpa using h

lemma forall₂_three {a b c : κ} {a' b' c' : κ'} (h : List.Forall₂ code [a, b, c] [a', b', c']) :
    code a a' ∧ code b b' ∧ code c c' := by
  simpa using h

lemma pairs {l : List (κ × κ)} {l' : List (κ' × κ')}
    (h : List.Forall₂ code (l.flatMap fun e => [e.1, e.2]) (l'.flatMap fun e => [e.1, e.2])) :
    List.Forall₂ code (l.map Prod.fst) (l'.map Prod.fst) ∧ List.Forall₂ code (l.map Prod.snd) (l'.map Prod.snd) := by
  induction l generalizing l' with
  | nil =>
    cases l' with
    | nil => exact ⟨.nil, .nil⟩
    | cons e' l' => cases h
  | cons e l ih =>
    cases l' with
    | nil => cases h
    | cons e' l' =>
      simp only [List.flatMap_cons, List.cons_append, List.nil_append, List.forall₂_cons] at h
      obtain ⟨hkey, hvalue, h⟩ := h
      obtain ⟨hkeys, hvalues⟩ := ih h
      exact ⟨.cons hkey hkeys, .cons hvalue hvalues⟩

/-- Two nodes that stand for alike nodes of trees are alike when the code that evaluation goes on with is. -/
theorem Like.recode (h : Like codeₗ .same n t) (ht : Like q r t t') (h' : Like codeᵣ .same n' t') (hr : r.Le s)
    (hcode : List.Forall₂ code n.evaluated n'.evaluated) : Like code s n n' := by
  cases ht with
  | yConst value =>
    obtain ⟨_, rfl, e⟩ := h.resembles
    obtain ⟨_, rfl, e'⟩ := h'.resembles
    cases e
    cases e'
    exact .yConst (hr.value value)
  | ycLocale _ _ =>
    obtain rfl := h.resembles
    obtain rfl := h'.resembles
    exact .ycLocale _ _
  | ycFunction _ _ =>
    obtain ⟨_, _, rfl⟩ := h.resembles
    obtain ⟨_, _, rfl⟩ := h'.resembles
    obtain ⟨h1, h2⟩ := forall₂_two hcode
    exact .ycFunction h1 h2
  | yePropagate htype _ =>
    obtain ⟨_, _, _, rfl, e⟩ := h.resembles
    obtain ⟨_, _, _, rfl, e'⟩ := h'.resembles
    cases e
    cases e'
    have h1 := forall₂_one hcode
    exact .yePropagate (hr.type htype) h1
  | yeUnary hdecl _ =>
    obtain ⟨_, _, rfl, e⟩ := h.resembles
    obtain ⟨_, _, rfl, e'⟩ := h'.resembles
    have h1 := forall₂_one hcode
    exact .yeUnary (hr.decls e hdecl e') h1
  | yeBinary hdecl _ _ =>
    obtain ⟨_, _, _, rfl, e⟩ := h.resembles
    obtain ⟨_, _, _, rfl, e'⟩ := h'.resembles
    obtain ⟨h1, h2⟩ := forall₂_two hcode
    exact .yeBinary (hr.decls e hdecl e') h1 h2
  | yeTriple _ _ _ =>
    obtain ⟨_, _, _, rfl⟩ := h.resembles
    obtain ⟨_, _, _, rfl⟩ := h'.resembles
    obtain ⟨h1, h2, h3⟩ := forall₂_three hcode
    exact .yeTriple h1 h2 h3
  | yeCompare _ _ _ =>
    obtain ⟨_, _, rfl⟩ := h.resembles
    obtain ⟨_, _, rfl⟩ := h'.resembles
    obtain ⟨h1, h2⟩ := forall₂_two hcode
    exact .yeCompare _ h1 h2
  | yeLocale _ _ _ _ =>
    obtain ⟨_, rfl⟩ := h.resembles
    obtain ⟨_, rfl⟩ := h'.resembles
    have h1 := forall₂_one hcode
    exact .yeLocale _ _ _ h1
  | yeList _ =>
    obtain ⟨_, rfl⟩ := h.resembles
    obtain ⟨_, rfl⟩ := h'.resembles
    exact .yeList hcode
  | yeMap _ _ =>
    obtain ⟨_, rfl⟩ := h.resembles
    obtain ⟨_, rfl⟩ := h'.resembles
    exact .yeMap (pairs hcode).1 (pairs hcode).2
  | yeTerm _ _ =>
    obtain ⟨_, rfl⟩ := h.resembles
    obtain ⟨_, rfl⟩ := h'.resembles
    exact .yeTerm _ hcode
  | yeIs htype _ =>
    obtain ⟨_, _, rfl, e⟩ := h.resembles
    obtain ⟨_, _, rfl, e'⟩ := h'.resembles
    cases e
    cases e'
    have h1 := forall₂_one hcode
    exact .yeIs (hr.type htype) h1
  | yeBracket _ _ _ =>
    obtain ⟨_, _, _, _, rfl⟩ := h.resembles
    obtain ⟨_, _, _, _, rfl⟩ := h'.resembles
    obtain ⟨h1, h2, h3⟩ := forall₂_three hcode
    exact .yeBracket h1 h2 h3
  | yeBlock hinfo _ =>
    obtain ⟨_, _, _, _, rfl, e⟩ := h.resembles
    obtain ⟨_, _, _, _, rfl, e'⟩ := h'.resembles
    cases e
    cases e'
    exact .yeBlock (hr.block hinfo) hcode
  | yeReturn _ =>
    obtain ⟨_, rfl⟩ := h.resembles
    obtain ⟨_, rfl⟩ := h'.resembles
    have h1 := forall₂_one hcode
    exact .yeReturn h1
  | yeVariable hentry =>
    obtain ⟨_, rfl, e⟩ := h.resembles
    obtain ⟨_, rfl, e'⟩ := h'.resembles
    cases e
    cases e'
    exact .yeVariable (hr.entry hentry)
  | yeBuiltin hdecl _ _ =>
    obtain ⟨_, _, _, _, rfl, e⟩ := h.resembles
    obtain ⟨_, _, _, _, rfl, e'⟩ := h'.resembles
    obtain ⟨h1, hparameters⟩ := List.forall₂_cons.mp hcode
    exact .yeBuiltin (hr.decls e hdecl e') h1 hparameters
  | yeFunction hentry _ =>
    obtain ⟨_, _, rfl, e⟩ := h.resembles
    obtain ⟨_, _, rfl, e'⟩ := h'.resembles
    cases e
    cases e'
    exact .yeFunction (hr.entry hentry) hcode
  | yeReference hentry =>
    obtain ⟨_, rfl, e⟩ := h.resembles
    obtain ⟨_, rfl, e'⟩ := h'.resembles
    cases e
    cases e'
    exact .yeReference (hr.entry hentry)
  | yeFunctionPointer hentry _ =>
    obtain ⟨_, _, rfl, e⟩ := h.resembles
    obtain ⟨_, _, rfl, e'⟩ := h'.resembles
    cases e
    cases e'
    exact .yeFunctionPointer (hr.entry hentry) hcode
  | ysTypedef =>
    obtain ⟨_, _, _, rfl⟩ := h.resembles
    obtain ⟨_, _, _, rfl⟩ := h'.resembles
    exact .ysTypedef
  | ysVariable hentry _ =>
    obtain ⟨_, _, _, rfl, e⟩ := h.resembles
    obtain ⟨_, _, _, rfl, e'⟩ := h'.resembles
    cases e
    cases e'
    have h1 := forall₂_one hcode
    exact .ysVariable (hr.entry hentry) h1
  | ysFunction =>
    obtain ⟨_, _, _, _, rfl⟩ := h.resembles
    obtain ⟨_, _, _, _, rfl⟩ := h'.resembles
    exact .ysFunction
  | ysAssign hentry _ =>
    obtain ⟨_, _, _, rfl, e⟩ := h.resembles
    obtain ⟨_, _, _, rfl, e'⟩ := h'.resembles
    cases e
    cases e'
    have h1 := forall₂_one hcode
    exact .ysAssign (hr.entry hentry) h1
  | ysBracket hentry _ _ =>
    obtain ⟨_, _, _, _, rfl, e⟩ := h.resembles
    obtain ⟨_, _, _, _, rfl, e'⟩ := h'.resembles
    cases e
    cases e'
    obtain ⟨h1, h2⟩ := forall₂_two hcode
    exact .ysBracket (hr.entry hentry) h1 h2
  | ysIf _ _ _ =>
    obtain ⟨_, _, _, _, rfl⟩ := h.resembles
    obtain ⟨_, _, _, _, rfl⟩ := h'.resembles
    obtain ⟨h1, h2, h3⟩ := forall₂_three hcode
    exact .ysIf h1 h2 h3
  | ysWhile _ _ =>
    obtain ⟨_, _, _, rfl⟩ := h.resembles
    obtain ⟨_, _, _, rfl⟩ := h'.resembles
    obtain ⟨h1, h2⟩ := forall₂_two hcode
    exact .ysWhile h1 h2
  | ysDo _ _ =>
    obtain ⟨_, _, _, rfl⟩ := h.resembles
    obtain ⟨_, _, _, rfl⟩ := h'.resembles
    obtain ⟨h1, h2⟩ := forall₂_two hcode
    exact .ysDo h1 h2
  | ysRepeat _ _ =>
    obtain ⟨_, _, _, rfl⟩ := h.resembles
    obtain ⟨_, _, _, rfl⟩ := h'.resembles
    obtain ⟨h1, h2⟩ := forall₂_two hcode
    exact .ysRepeat h1 h2
  | ysExpression _ =>
    obtain ⟨_, _, rfl⟩ := h.resembles
    obtain ⟨_, _, rfl⟩ := h'.resembles
    have h1 := forall₂_one hcode
    exact .ysExpression h1
  | ysReturn _ =>
    obtain ⟨_, _, rfl⟩ := h.resembles
    obtain ⟨_, _, rfl⟩ := h'.resembles
    have h1 := forall₂_one hcode
    exact .ysReturn h1
  | ysBreak =>
    obtain ⟨_, rfl⟩ := h.resembles
    obtain ⟨_, rfl⟩ := h'.resembles
    exact .ysBreak
  | ysContinue =>
    obtain ⟨_, rfl⟩ := h.resembles
    obtain ⟨_, rfl⟩ := h'.resembles
    exact .ysContinue
  | ysTextdomain =>
    obtain ⟨_, _, rfl⟩ := h.resembles
    obtain ⟨_, _, rfl⟩ := h'.resembles
    exact .ysTextdomain
  | ysInclude =>
    obtain ⟨_, _, _, rfl⟩ := h.resembles
    obtain ⟨_, _, _, rfl⟩ := h'.resembles
    exact .ysInclude
  | ysFilename =>
    obtain ⟨_, _, rfl⟩ := h.resembles
    obtain ⟨_, _, rfl⟩ := h'.resembles
    exact .ysFilename
  | ysImport _ =>
    obtain ⟨_, rfl⟩ := h.resembles
    obtain ⟨_, rfl⟩ := h'.resembles
    exact .ysImport _
  | ysBlock _ =>
    obtain ⟨_, _, rfl⟩ := h.resembles
    obtain ⟨_, _, rfl⟩ := h'.resembles
    have h1 := forall₂_one hcode
    exact .ysBlock h1
  | ysSwitch _ _ hvalues hindices _ =>
    obtain ⟨_, _, _, _, rfl, e, i⟩ := h.resembles
    obtain ⟨_, _, _, _, rfl, e', i'⟩ := h'.resembles
    obtain ⟨h1, h2⟩ := forall₂_two hcode
    exact .ysSwitch _ h1 (hr.values e hvalues e') (i.trans (hindices.trans i'.symm)) h2

end Recode

end Node

/-- Trees of nodes that are alike. -/
inductive YCode.Like (r : Likeness) : YCode → YCode → Prop where
  | null : Like r null null
  | node {n n' : Node YCode} (h : Node.Like (YCode.Like r) r n n') : Like r (node n) (node n')

namespace YCode

/-- The trees that the evaluation of a tree may go on with. -/
def evaluated : YCode → List YCode
  | null => []
  | node n => n.evaluated

lemma Like.evaluated {r : Likeness} {c c' : YCode} (h : Like r c c') :
    List.Forall₂ (Like r) c.evaluated c'.evaluated := by
  cases h with
  | null => exact .nil
  | node h => exact Node.Like.evaluated h

end YCode

end YastCore
