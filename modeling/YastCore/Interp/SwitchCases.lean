import YastCore.Code.Bytecode
import YastCore.Interp.Switch

/-!
# The cases of a switch

The parser notes for each label how many statements the block of the `switch` has so far. The indices
stay right while more statements are attached, so a `switch` runs what was written after the label.
-/

namespace YastCore.Interp

open Discipline Sequence

/-! ### How the parser fills a switch -/

/-- What the parser meets between the braces of a `switch`. -/
inductive SwitchItem where
  | statement (code : CodePtr)
  | caseLabel (value : YCPValue)
  | defaultLabel

/-- The members of a `YSSwitch` that are filled while its block is parsed, and the statements that the
block has so far. -/
structure SwitchParts where
  cases : List (YCPValue × Int32)
  defaultcase : Int32
  statements : List CodePtr

def SwitchParts.empty : SwitchParts := ⟨[], -1, []⟩

/-- `YBlock::statementCount`; a count beyond `int` is undefined. -/
def statementCount (statements : List CodePtr) : Option Int32 :=
  if statements.length < 2 ^ 31 then some (.ofNat statements.length) else none

/-- `YSSwitch::setCase`; a duplicate is a parser error. -/
def setCase (sw : SwitchParts) (value : YCPValue) : Option SwitchParts :=
  if (findCase sw.cases value).isSome then none
  else do
    let index ← statementCount sw.statements
    return { sw with cases := Bytecode.caseInsert value index sw.cases }

/-- `YSSwitch::setDefaultCase`. -/
def setDefaultCase (sw : SwitchParts) : Option SwitchParts :=
  if sw.defaultcase ≠ -1 then none
  else do
    let index ← statementCount sw.statements
    return { sw with defaultcase := index }

/-- `YBlock::attachStatement`. -/
def attachStatement (sw : SwitchParts) (code : CodePtr) : SwitchParts :=
  { sw with statements := sw.statements ++ [code] }

def parseItem (sw : SwitchParts) : SwitchItem → Option SwitchParts
  | .statement code => some (attachStatement sw code)
  | .caseLabel value => setCase sw value
  | .defaultLabel => setDefaultCase sw

def parseSwitch (items : List SwitchItem) : Option SwitchParts :=
  items.foldlM parseItem SwitchParts.empty

/-- The statements among the items. -/
def attached (items : List SwitchItem) : List CodePtr :=
  items.filterMap fun item =>
    match item with
    | .statement code => some code
    | _ => none

def caseMatches (c v : YCPValue) : Bool := !YCPValue.keyLess c v && !YCPValue.keyLess v c

/-- The index is the one of the statements after this label. -/
def IndexAfter (items : List SwitchItem) (label : SwitchItem) (k : Int32) : Prop :=
  ∃ before after, items = before ++ label :: after ∧ k.toInt.toNat = (attached before).length

/-- The cases found are those of the labels. -/
structure CasesOf (items : List SwitchItem) (cases : List (YCPValue × Int32)) : Prop where
  found : ∀ {v k}, findCase cases v = some k →
    ∃ c, caseMatches c v = true ∧ IndexAfter items (.caseLabel c) k
  missing : ∀ {v}, findCase cases v = none →
    ∀ c, SwitchItem.caseLabel c ∈ items → caseMatches c v = false

structure PartsOf (items : List SwitchItem) (sw : SwitchParts) : Prop where
  statements : sw.statements = attached items
  cases : CasesOf items sw.cases
  default : sw.defaultcase ≠ -1 → IndexAfter items .defaultLabel sw.defaultcase
  noDefault : sw.defaultcase = -1 → SwitchItem.defaultLabel ∉ items

section Parsing

lemma attached_append (items items' : List SwitchItem) :
    attached (items ++ items') = attached items ++ attached items' :=
  List.filterMap_append

lemma IndexAfter.append {items : List SwitchItem} {label : SwitchItem} {k : Int32}
    (h : IndexAfter items label k) (item : SwitchItem) : IndexAfter (items ++ [item]) label k := by
  obtain ⟨before, after, rfl, hk⟩ := h
  exact ⟨before, after ++ [item], by simp, hk⟩

lemma IndexAfter.drop {items : List SwitchItem} {label : SwitchItem} {k : Int32}
    (h : IndexAfter items label k) (hlabel : attached [label] = []) :
    ∃ before after, items = before ++ label :: after ∧
      (attached items).drop k.toInt.toNat = attached after := by
  obtain ⟨before, after, rfl, hk⟩ := h
  refine ⟨before, after, rfl, ?_⟩
  have hsplit : attached (before ++ label :: after) = attached before ++ attached after := by
    have hcons : label :: after = [label] ++ after := rfl
    rw [attached_append, hcons, attached_append, hlabel, List.nil_append]
  rw [hsplit, hk, List.drop_left]

lemma statementCount_eq {statements : List CodePtr} {k : Int32}
    (h : statementCount statements = some k) :
    k.toInt.toNat = statements.length ∧ k ≠ -1 := by
  unfold statementCount at h
  split at h
  next hlt =>
    cases h
    have hint : (Int32.ofNat statements.length).toInt = statements.length :=
      Int32.toInt_ofNat_of_lt hlt
    constructor
    · rw [hint]
      exact Int.toNat_natCast _
    · intro hminus
      rw [hminus] at hint
      have hneg : (-1 : Int32).toInt = -1 := by decide
      rw [hneg] at hint
      omega
  next => cases h

lemma findCase_cons (c : YCPValue × Int32) (cases : List (YCPValue × Int32)) (v : YCPValue) :
    findCase (c :: cases) v = if caseMatches c.1 v then some c.2 else findCase cases v := by
  unfold findCase
  rw [List.find?_cons]
  unfold caseMatches
  cases !YCPValue.keyLess c.1 v && !YCPValue.keyLess v c.1 with
  | true => rfl
  | false => rfl

/-- A new case is found under its own value, and the others as before. -/
lemma findCase_caseInsert {value : YCPValue} {index : Int32} {cases : List (YCPValue × Int32)}
    (hnew : findCase cases value = none) (v : YCPValue) :
    (∀ k, findCase (Bytecode.caseInsert value index cases) v = some k →
      (k = index ∧ caseMatches value v = true) ∨ findCase cases v = some k) ∧
    (findCase (Bytecode.caseInsert value index cases) v = none →
      findCase cases v = none ∧ caseMatches value v = false) := by
  induction cases with
  | nil =>
    unfold Bytecode.caseInsert
    rw [findCase_cons]
    constructor
    · intro k hk
      split at hk
      next hmatch =>
        cases hk
        exact .inl ⟨rfl, hmatch⟩
      next => exact .inr hk
    · intro hnone
      split at hnone
      next => cases hnone
      next hmatch => exact ⟨hnone, Bool.eq_false_iff.mpr hmatch⟩
  | cons c cases ih =>
    rw [findCase_cons] at hnew
    split at hnew
    next => cases hnew
    next hother =>
    obtain ⟨hfound, hmissing⟩ := ih hnew
    have hinsert : Bytecode.caseInsert value index (c :: cases) =
        if YCPValue.keyLess c.1 value then c :: Bytecode.caseInsert value index cases
        else if YCPValue.keyLess value c.1 then (value, index) :: c :: cases
        else (c.1, index) :: cases := rfl
    rw [hinsert]
    by_cases hless : YCPValue.keyLess c.1 value = true
    · rw [if_pos hless, findCase_cons, findCase_cons]
      split
      next => exact ⟨fun k hk => .inr hk, fun hnone => by cases hnone⟩
      next => exact ⟨hfound, hmissing⟩
    · rw [if_neg hless]
      have hgreater : YCPValue.keyLess value c.1 = true := by
        unfold caseMatches at hother
        simpa [hless] using hother
      rw [if_pos hgreater, findCase_cons (value, index)]
      constructor
      · intro k hk
        split at hk
        next hmatch =>
          cases hk
          exact .inl ⟨rfl, hmatch⟩
        next => exact .inr hk
      · intro hnone
        split at hnone
        next => cases hnone
        next hmatch => exact ⟨hnone, Bool.eq_false_iff.mpr hmatch⟩

lemma CasesOf.append {items : List SwitchItem} {cases : List (YCPValue × Int32)}
    (h : CasesOf items cases) {item : SwitchItem} (hitem : ∀ c, item ≠ .caseLabel c) :
    CasesOf (items ++ [item]) cases where
  found := by
    intro v k hk
    obtain ⟨c, hmatch, hindex⟩ := h.found hk
    exact ⟨c, hmatch, hindex.append item⟩
  missing := by
    intro v hnone c hmem
    rcases List.mem_append.mp hmem with hmem | hmem
    · exact h.missing hnone c hmem
    · exact absurd (List.mem_singleton.mp hmem).symm (hitem c)

lemma CasesOf.insert {items : List SwitchItem} {cases : List (YCPValue × Int32)}
    (h : CasesOf items cases) {value : YCPValue} {index : Int32}
    (hnew : findCase cases value = none) (hindex : index.toInt.toNat = (attached items).length) :
    CasesOf (items ++ [.caseLabel value]) (Bytecode.caseInsert value index cases) where
  found := by
    intro v k hk
    rcases (findCase_caseInsert hnew v).1 k hk with ⟨rfl, hmatch⟩ | hk
    · exact ⟨value, hmatch, items, [], rfl, hindex⟩
    · obtain ⟨c, hmatch, hafter⟩ := h.found hk
      exact ⟨c, hmatch, hafter.append _⟩
  missing := by
    intro v hnone c hmem
    obtain ⟨hold, hmatch⟩ := (findCase_caseInsert hnew v).2 hnone
    rcases List.mem_append.mp hmem with hmem | hmem
    · exact h.missing hold c hmem
    · cases List.mem_singleton.mp hmem
      exact hmatch

/-- What one item adds. -/
lemma PartsOf.step {items : List SwitchItem} {sw sw' : SwitchParts} (h : PartsOf items sw)
    {item : SwitchItem} (hstep : parseItem sw item = some sw') : PartsOf (items ++ [item]) sw' := by
  cases item with
  | statement code =>
    cases hstep
    refine ⟨?_, h.cases.append (by simp), fun hne => (h.default hne).append _, fun heq hmem => ?_⟩
    · change sw.statements ++ [code] = _
      rw [h.statements, attached_append]
      rfl
    · apply h.noDefault heq
      simpa using hmem
  | caseLabel value =>
    change setCase sw value = some sw' at hstep
    unfold setCase at hstep
    split at hstep
    next => cases hstep
    next hnew =>
    obtain ⟨index, hcount, hlast⟩ := Option.bind_eq_some_iff.mp hstep
    cases hlast
    have hnone : findCase sw.cases value = none := by simpa using hnew
    have hindex := (statementCount_eq hcount).1
    rw [h.statements] at hindex
    refine ⟨?_, h.cases.insert hnone hindex, fun hne => (h.default hne).append _,
      fun heq hmem => ?_⟩
    · change sw.statements = _
      rw [h.statements, attached_append]
      exact (List.append_nil _).symm
    · apply h.noDefault heq
      simpa using hmem
  | defaultLabel =>
    change setDefaultCase sw = some sw' at hstep
    unfold setDefaultCase at hstep
    split at hstep
    next => cases hstep
    next hnone =>
    obtain ⟨index, hcount, hlast⟩ := Option.bind_eq_some_iff.mp hstep
    cases hlast
    obtain ⟨hindex, hne⟩ := statementCount_eq hcount
    rw [h.statements] at hindex
    refine ⟨?_, h.cases.append (by simp), fun _ => ⟨items, [], rfl, hindex⟩,
      fun heq => absurd heq hne⟩
    change sw.statements = _
    rw [h.statements, attached_append]
    exact (List.append_nil _).symm

lemma partsOf_empty : PartsOf [] SwitchParts.empty where
  statements := rfl
  cases := ⟨by simp [findCase, SwitchParts.empty], by simp⟩
  default := fun h => absurd rfl h
  noDefault := by simp

lemma partsOf_foldlM {todo items : List SwitchItem} {sw sw' : SwitchParts} (h : PartsOf items sw)
    (hparse : todo.foldlM parseItem sw = some sw') : PartsOf (items ++ todo) sw' := by
  induction todo generalizing items sw with
  | nil =>
    cases hparse
    rw [List.append_nil]
    exact h
  | cons item todo ih =>
    rw [List.foldlM_cons] at hparse
    obtain ⟨sw₁, hstep, hrest⟩ := Option.bind_eq_some_iff.mp hparse
    have hall := ih (h.step hstep) hrest
    rwa [List.append_assoc, List.singleton_append] at hall

lemma partsOf_parseSwitch {items : List SwitchItem} {sw : SwitchParts}
    (h : parseSwitch items = some sw) : PartsOf items sw :=
  partsOf_foldlM partsOf_empty h

end Parsing

/-! ### Agreement -/

/-- The label at which a `switch` over these items goes on for a value. -/
def Chosen (items : List SwitchItem) (v : YCPValue) : SwitchItem → Prop
  | .statement _ => False
  | .caseLabel c => caseMatches c v = true
  | .defaultLabel => ∀ c, SwitchItem.caseLabel c ∈ items → caseMatches c v = false

/-- The cases lead to the statements after the labels. -/
structure LeadsToLabels (items : List SwitchItem) (sw : SwitchParts) : Prop where
  starts : ∀ {v k}, startIndex sw.cases sw.defaultcase v = some k →
    ∃ before label after, items = before ++ label :: after ∧ Chosen items v label ∧
      sw.statements.drop k.toInt.toNat = attached after
  nowhere : ∀ {v}, startIndex sw.cases sw.defaultcase v = none →
    ∀ label ∈ items, ¬ Chosen items v label

lemma leadsToLabels {items : List SwitchItem} {sw : SwitchParts} (h : parseSwitch items = some sw) :
    LeadsToLabels items sw := by
  have hparts := partsOf_parseSwitch h
  constructor
  · intro v k hstart
    unfold startIndex at hstart
    cases hfind : findCase sw.cases v with
    | some i =>
      rw [hfind] at hstart
      cases hstart
      obtain ⟨c, hmatch, hafter⟩ := hparts.cases.found hfind
      obtain ⟨before, after, heq, hdrop⟩ := hafter.drop rfl
      refine ⟨before, .caseLabel c, after, heq, hmatch, ?_⟩
      rw [hparts.statements]
      exact hdrop
    | none =>
      rw [hfind, Option.none_or] at hstart
      split at hstart
      next => cases hstart
      next hne =>
        cases hstart
        obtain ⟨before, after, heq, hdrop⟩ := (hparts.default hne).drop rfl
        refine ⟨before, .defaultLabel, after, heq, hparts.cases.missing hfind, ?_⟩
        rw [hparts.statements]
        exact hdrop
  · intro v hstart label hmem hchosen
    unfold startIndex at hstart
    rw [Option.or_eq_none_iff] at hstart
    obtain ⟨hfind, hdefault⟩ := hstart
    cases label with
    | statement code => exact hchosen
    | caseLabel c =>
      have hno := hparts.cases.missing hfind c hmem
      rw [hchosen] at hno
      cases hno
    | defaultLabel =>
      split at hdefault
      next heq => exact hparts.noDefault heq hmem
      next => cases hdefault

/-- What a block, and a `switch` over it, do in terms of the list of its statements. -/
structure AgreesWithStatements (P : Program) (evaluate : Evaluator) (block : CodePtr)
    (info : BlockInfo) (statements : List CodePtr) : Prop where
  suffix : ∀ k s, evaluateFrom P evaluate block k s =
    yBlock P evaluate false block info (statements.drop k.toInt.toNat) s
  runs : ∀ {rest s v s'}, yBlock P evaluate false block info rest s = .ok v s' ↔
    ∃ w t, ExecutesStatements evaluate rest (enteredBlock P block info s) w t ∧
      v = blockValue info.kind w ∧ s' = leftBlock P block info s t
  fallsThrough : ∀ {own following s w t}, ExecutesStatements evaluate (own ++ following) s w t ↔
    (ExecutesStatements evaluate own s w t ∧ w.isNull = false) ∨
      ∃ s₁, ExecutesStatements evaluate own s .null s₁ ∧
        ExecutesStatements evaluate following s₁ w t
  switch : ∀ {condition cases defaultcase s v s'},
    ysSwitch P evaluate false condition cases defaultcase block s = .ok v s' ↔
      SwitchRuns P evaluate condition cases defaultcase block info statements s v s'
  noBreak : ∀ {condition cases defaultcase s v s'},
    ysSwitch P evaluate false condition cases defaultcase block s = .ok v s' → v.isBreak = false
  escapes : ∀ {w}, w.isNull = false → w.isBreak = false → switchValue info.kind w = w
  reentered : ∀ {k s v s'}, s.running block = true → evaluateFrom P evaluate block k s = .ok v s' →
    ∀ e ∈ P.variableSymbols info, s'.value e = s.value e
  recursion : ∀ {s v s'}, s.running block = true →
    yBlock P evaluate false block info statements s = .ok v s' →
      ∀ e ∈ P.variableSymbols info, s'.value e = s.value e

/-- Evaluating a block from an index on is evaluating the statements from there on, a `switch` runs
what was written after the label it chooses, and a block that was running has its variables back
after it is entered again. -/
theorem switch_agreesWithStatements (P : Program) (block : CodePtr) (info : BlockInfo)
    (table : List (TableItem CodePtr)) (point : Point) (statements : List CodePtr)
    (hblock : P.code block = some (.yeBlock info table point statements))
    (hkind : info.kind ≠ .b_module) (hown : OwnVariables P block info) (fuel : Nat) :
    AgreesWithStatements P (evaluate P fuel) block info statements ∧
      ∀ items sw, parseSwitch items = some sw → LeadsToLabels items sw := by
  have heval : Evaluates (stackDiscipline P) anyValue (evaluate P fuel) :=
    (admits_stacks P).evaluates fuel
  have hkept : ∀ e ∈ P.variableSymbols info, StackKept P e :=
    fun e he => hown.stackKept hblock hkind he
  have hback : ∀ {rest s v s'}, s.running block = true →
      yBlock P (evaluate P fuel) false block info rest s = .ok v s' →
        ∀ e ∈ P.variableSymbols info, s'.value e = s.value e := by
    intro rest s v s' hrunning hrun e he
    obtain ⟨w, t, -, -, rfl⟩ := (yBlock_ok_iff heval hkind hkept).mp hrun
    exact leftBlock_local hrunning he
  refine ⟨?_, fun items sw h => leadsToLabels h⟩
  constructor
  case suffix => exact evaluateFrom_eq _ hblock hkind
  case runs => exact yBlock_ok_iff heval hkind hkept
  case fallsThrough => exact executes_append_iff rfl
  case switch => exact ysSwitch_ok_iff heval hblock hkind hkept
  case noBreak =>
    intro condition cases defaultcase s v s' hrun
    cases (ysSwitch_ok_iff heval hblock hkind hkept).mp hrun with
    | noValue => rfl
    | noCase => rfl
    | starts => exact switchValue_ne_break _ _
  case escapes => exact switchValue_escapes _
  case reentered =>
    intro k s v s' hrunning hrun
    rw [evaluateFrom_eq _ hblock hkind] at hrun
    exact hback hrunning hrun
  case recursion => exact hback

/-! ### A switch in a running block -/

def yEntry : EntryRef := ⟨.block 7, 0⟩

/-- The block `{ y = 1; continue; }` at the address 4, with its variable `y`. -/
def assigning : Program :=
  .ofNodes [.yConst .ycInteger (.integer 1), .ysAssign 1 yEntry 1, .ysContinue 2,
    .yeBlock ⟨7, .ofBuffer [], .b_unknown, 1⟩ [] ⟨yEntry, 0, []⟩ [2, 3]]
    (fun _ => ⟨.c_variable, .base .integerT unqualified, 0⟩) 100

/-- The block is running, and `y` is 7. -/
def reentering : State :=
  { State.start with running := fun p => decide (p = 4), value := fun _ => .integer 7 }

lemma ownVariables_assigning : OwnVariables assigning 4 ⟨7, .ofBuffer [], .b_unknown, 1⟩ where
  apart := by
    intro q info table point statements hq _
    rcases q with _ | _ | _ | _ | _ | q
    · cases hq
    · cases hq
    · cases hq
    · cases hq
    · rfl
    · cases hq
  declaration := by
    intro p declaration definition hp
    rcases p with _ | _ | _ | _ | _ | p
    · cases hp
    · cases hp
    · cases hp
    · cases hp
    · cases hp
    · cases hp

/-- The `continue` escapes, and `y` is 7 again. -/
theorem switch_agreesWithStatements_continue :
    ∃ s', ysSwitch assigning (evaluate assigning 3) false 1 [(.integer 1, 0)] (-1) 4 reentering =
        .ok .void s' ∧ s'.value yEntry = .integer 7 := by
  obtain ⟨hagrees, -⟩ := switch_agreesWithStatements assigning 4 _ _ _ _ rfl (by decide)
    ownVariables_assigning 3
  have hcondition : evaluate assigning 3 false 1 reentering = .ok (.integer 1) reentering := rfl
  have hstart : startIndex [(.integer 1, 0)] (-1) (.integer 1) = some 0 := rfl
  obtain ⟨t, hstatements⟩ : ∃ t, ExecutesStatements (evaluate assigning 3) [2, 3]
      (enteredBlock assigning 4 ⟨7, .ofBuffer [], .b_unknown, 1⟩ reentering) .void t :=
    ⟨_, .next rfl rfl (.stops rfl rfl)⟩
  exact ⟨_, hagrees.switch.mpr (.starts hcondition rfl hstart hstatements), rfl⟩

end YastCore.Interp
