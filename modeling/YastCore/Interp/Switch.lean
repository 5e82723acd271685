import YastCore.Interp.Activation
import YastCore.Lib.Sequence

/-!
# Blocks and switches

`YBlock::evaluate` and `YBlock::evaluateFrom` against the list of their statements, the suffix that a
`switch` runs, and the local variables of a block that is entered again while it runs.
-/

namespace YastCore.Interp

open Discipline Sequence

/-! ### A run of a block -/

/-- A run of statements under the evaluator. -/
abbrev ExecutesStatements (evaluate : Evaluator) : List CodePtr → State → YCPValue → State → Prop :=
  Executes (evaluate false) YCPValue.isNull .null

/-- Where the statements of a block start: its variables are saved when it is running already. -/
def enteredBlock (P : Program) (block : CodePtr) (info : BlockInfo) (s : State) : State :=
  { s with
    running := Function.update s.running block true
    stack := fun e =>
      if s.running block = true ∧ e ∈ P.variableSymbols info then some (s.value e :: s.stackOf e)
      else s.stack e }

/-- What a block entered in `s` leaves when its statements end in `t`: its variables have the values
they had before when the block was running already. -/
def leftBlock (P : Program) (block : CodePtr) (info : BlockInfo) (s t : State) : State :=
  { t with
    running := Function.update t.running block (s.running block)
    value := fun e =>
      if s.running block = true ∧ e ∈ P.variableSymbols info then s.value e else t.value e
    stack := fun e =>
      if s.running block = true ∧ e ∈ P.variableSymbols info then (t.stack e).map List.tail
      else t.stack e }

lemma leftBlock_local {P : Program} {block : CodePtr} {info : BlockInfo} {s t : State}
    (hrunning : s.running block = true) {e : EntryRef} (he : e ∈ P.variableSymbols info) :
    (leftBlock P block info s t).value e = s.value e :=
  if_pos ⟨hrunning, he⟩

/-- The variables of a block are its own: no other block has them, and it does not declare the
parameters of a function. -/
structure OwnVariables (P : Program) (block : CodePtr) (info : BlockInfo) : Prop where
  apart : ∀ {q info' table point statements},
    P.code q = some (.yeBlock info' table point statements) → info'.id = info.id → q = block
  declaration : ∀ {p declaration definition},
    P.code p = some (.ycFunction declaration definition) → declaration ≠ block

section Blocks

variable {P : Program} {block : CodePtr} {info : BlockInfo} {table : List (TableItem CodePtr)}
  {point : Point} {statements : List CodePtr}

lemma mem_symbols {e : EntryRef} (h : e ∈ Program.symbols info) : e.ns = info.ns := by
  obtain ⟨i, -, rfl⟩ := List.mem_map.mp h
  rfl

lemma mem_variableSymbols {e : EntryRef} (h : e ∈ P.variableSymbols info) : e.ns = info.ns :=
  mem_symbols (List.mem_of_mem_filter h)

lemma variableSymbols_nodup (P : Program) (info : BlockInfo) : (P.variableSymbols info).Nodup := by
  apply List.Nodup.filter
  refine List.Nodup.map ?_ List.nodup_range
  intro i j hij
  exact congrArg EntryRef.position hij

lemma ns_inj {info' : BlockInfo} (h : info'.ns = info.ns) : info'.id = info.id := by
  unfold BlockInfo.ns at h
  injection h

/-- The recursion stacks of such variables are kept by everything that is evaluated. -/
lemma OwnVariables.stackKept (h : OwnVariables P block info)
    (hblock : P.code block = some (.yeBlock info table point statements))
    (hkind : info.kind ≠ .b_module) {e : EntryRef} (he : e ∈ P.variableSymbols info) :
    StackKept P e where
  defined := by
    intro p declaration definition hp hformal
    exfalso
    unfold Program.formals at hformal
    split at hformal
    next info' table' point' statements' hdeclaration =>
      have hns : info'.ns = info.ns := (mem_symbols hformal).symm.trans (mem_variableSymbols he)
      exact h.declaration hp (h.apart hdeclaration (ns_inj hns))
    next => cases hformal
  notModule := by
    intro q info' table' point' statements' hq hmodule hmem
    have hns : info'.ns = info.ns := (mem_variableSymbols hmem).symm.trans (mem_variableSymbols he)
    have hsame := h.apart hq (ns_inj hns)
    rw [hsame, hblock] at hq
    cases hq
    exact hkind hmodule

/-! ### Pushing and popping -/

lemma pushAll_eq {entries : List EntryRef} (hnodup : entries.Nodup) (s : State) :
    pushAll entries s = .ok () { s with
      stack := fun e => if e ∈ entries then some (s.value e :: s.stackOf e) else s.stack e } := by
  induction entries generalizing s with
  | nil => rfl
  | cons e₀ es ih =>
    obtain ⟨hnot, hnodup⟩ := List.nodup_cons.mp hnodup
    have hstep : pushAll (e₀ :: es) s = pushAll es { s with
      stack := Function.update s.stack e₀ (some (s.value e₀ :: (s.stack e₀).getD [])) } := rfl
    rw [hstep, ih hnodup]
    congr 2
    funext e
    by_cases he : e = e₀
    · subst he
      simp [hnot, State.stackOf]
    · simp [he, State.stackOf]

lemma popAll_eq {entries : List EntryRef} (hnodup : entries.Nodup) {s : State}
    (hstack : ∀ e ∈ entries, s.stackOf e ≠ []) :
    popAll entries s = .ok () { s with
      value := fun e => if e ∈ entries then (s.stackOf e).headD (s.value e) else s.value e
      stack := fun e => if e ∈ entries then (s.stack e).map List.tail else s.stack e } := by
  induction entries generalizing s with
  | nil => rfl
  | cons e₀ es ih =>
    obtain ⟨hnot, hnodup⟩ := List.nodup_cons.mp hnodup
    rw [List.forall_mem_cons] at hstack
    obtain ⟨hfirst, hrest⟩ := hstack
    obtain ⟨v, rest, htop⟩ : ∃ v rest, s.stack e₀ = some (v :: rest) := by
      cases hs : s.stack e₀ with
      | none => simp [State.stackOf, hs] at hfirst
      | some l =>
        cases l with
        | nil => simp [State.stackOf, hs] at hfirst
        | cons v rest => exact ⟨v, rest, rfl⟩
    have hpop : pop e₀ s = .ok () { s with
        value := Function.update s.value e₀ v
        stack := Function.update s.stack e₀ (some rest) } := by
      unfold pop
      rw [EState.get_bind, htop]
      rfl
    have hrest' : ∀ e ∈ es, State.stackOf { s with
        value := Function.update s.value e₀ v
        stack := Function.update s.stack e₀ (some rest) } e ≠ [] := by
      intro e he
      have hne : e ≠ e₀ := fun heq => hnot (heq ▸ he)
      have hkept := hrest e he
      simpa [State.stackOf, hne] using hkept
    have hstep : popAll (e₀ :: es) s = popAll es { s with
        value := Function.update s.value e₀ v
        stack := Function.update s.stack e₀ (some rest) } := EState.bind_of_ok hpop
    rw [hstep, ih hnodup hrest']
    congr 2
    · funext e
      by_cases he : e = e₀
      · subst he
        simp [hnot, State.stackOf, htop]
      · simp [he, State.stackOf]
    · funext e
      by_cases he : e = e₀
      · subst he
        simp [hnot, htop]
      · simp [he]

/-! ### Running the statements -/

lemma runStatements_eq (evaluate : Evaluator) (statements : List CodePtr) :
    runStatements evaluate statements = run (evaluate false) YCPValue.isNull .null statements := by
  induction statements with
  | nil => rfl
  | cons statement statements ih =>
    unfold runStatements run
    rw [ih]

lemma runStatements_ok_iff {evaluate : Evaluator} {s s' : State} {v : YCPValue} :
    runStatements evaluate statements s = .ok v s' ↔
      ExecutesStatements evaluate statements s v s' := by
  rw [runStatements_eq]
  exact run_ok_iff

lemma runBlock_ok_iff {evaluate : Evaluator} {wasRunning : Bool} {s s' : State} {v : YCPValue} :
    runBlock evaluate block wasRunning statements s = .ok v s' ↔
      ∃ t, ExecutesStatements evaluate statements
          { s with running := Function.update s.running block true } v t ∧
        s' = { t with running := Function.update t.running block wasRunning } := by
  have hstart : runBlock evaluate block wasRunning statements s = (do
      let value ← runStatements evaluate statements
      setRunning block wasRunning
      return value : M YCPValue) { s with running := Function.update s.running block true } := rfl
  rw [hstart, EState.bind_ok_iff]
  constructor
  · rintro ⟨w, t, hrun, hrest⟩
    cases hrest
    exact ⟨t, runStatements_ok_iff.mp hrun, rfl⟩
  · rintro ⟨t, hrun, rfl⟩
    exact ⟨v, t, runStatements_ok_iff.mpr hrun, rfl⟩

/-- The block in a state where it is running already: its variables are pushed around the run. -/
lemma withPushed_runBlock_iff {evaluate : Evaluator} (h : Evaluates (stackDiscipline P) anyValue evaluate)
    (hkept : ∀ e ∈ P.variableSymbols info, StackKept P e) {s s' : State} {v : YCPValue}
    (hrunning : s.running block = true) :
    withPushed (P.variableSymbols info) (runBlock evaluate block true statements) s = .ok v s' ↔
      ∃ t, ExecutesStatements evaluate statements (enteredBlock P block info s) v t ∧
        s' = leftBlock P block info s t := by
  have hentered : enteredBlock P block info s = { s with
      running := Function.update s.running block true
      stack := fun e =>
        if e ∈ P.variableSymbols info then some (s.value e :: s.stackOf e) else s.stack e } := by
    unfold enteredBlock
    simp only [hrunning, true_and]
  have hnodup := variableSymbols_nodup P info
  unfold withPushed
  rw [EState.bind_of_ok (pushAll_eq hnodup s), EState.bind_ok_iff]
  -- the statements leave the stacks as they are, so what was pushed is on top when it is popped
  have hpop : ∀ t, ExecutesStatements evaluate statements (enteredBlock P block info s) v t →
      popAll (P.variableSymbols info) { t with running := Function.update t.running block true } =
        .ok () (leftBlock P block info s t) := by
    intro t hrun
    have htop : ∀ e ∈ P.variableSymbols info, t.stackOf e = s.value e :: s.stackOf e := by
      intro e he
      have hsame : t.stackOf e = (enteredBlock P block info s).stackOf e := by
        have hrun' := runStatements_ok_iff.mpr hrun
        have hkeeps := (admits_stacks P).admits.runStatements_keeps h statements
          (enteredBlock P block info s) trivial
        exact (hkeeps.of_ok hrun').2.1 e (hkept e he)
      rw [hsame, hentered]
      simp [State.stackOf, he]
    have hne : ∀ e ∈ P.variableSymbols info, State.stackOf
        { t with running := Function.update t.running block true } e ≠ [] := by
      intro e he
      change t.stackOf e ≠ []
      rw [htop e he]
      exact List.cons_ne_nil _ _
    rw [popAll_eq hnodup hne]
    unfold leftBlock
    rw [hrunning]
    congr 2
    · funext e
      by_cases he : e ∈ P.variableSymbols info
      · rw [if_pos he, if_pos ⟨rfl, he⟩]
        change (t.stackOf e).headD (t.value e) = s.value e
        rw [htop e he]
        rfl
      · rw [if_neg he, if_neg fun hboth => he hboth.2]
    · funext e
      simp only [true_and]
  constructor
  · rintro ⟨w, s₁, hbody, hrest⟩
    obtain ⟨t, hrun, rfl⟩ := runBlock_ok_iff.mp hbody
    rw [← hentered] at hrun
    obtain ⟨_, s₂, hpopped, hlast⟩ := EState.bind_ok_iff.mp hrest
    cases hlast
    rw [hpop t hrun] at hpopped
    cases hpopped
    exact ⟨t, hrun, rfl⟩
  · rintro ⟨t, hrun, rfl⟩
    refine ⟨v, { t with running := Function.update t.running block true }, ?_, ?_⟩
    · apply runBlock_ok_iff.mpr
      refine ⟨t, ?_, rfl⟩
      rw [hentered] at hrun
      exact hrun
    · rw [EState.bind_of_ok (hpop t hrun)]
      rfl

/-- What a run of the block yields and leaves, entered for the first time or again. -/
lemma yBlock_ok_iff {evaluate : Evaluator} (h : Evaluates (stackDiscipline P) anyValue evaluate)
    (hkind : info.kind ≠ .b_module) (hkept : ∀ e ∈ P.variableSymbols info, StackKept P e)
    {s s' : State} {v : YCPValue} :
    yBlock P evaluate false block info statements s = .ok v s' ↔
      ∃ w t, ExecutesStatements evaluate statements (enteredBlock P block info s) w t ∧
        v = blockValue info.kind w ∧ s' = leftBlock P block info s t := by
  have hscope : ∀ w s', inScope P info (s.running block)
      (runBlock evaluate block (s.running block) statements) s = .ok w s' ↔
        ∃ t, ExecutesStatements evaluate statements (enteredBlock P block info s) w t ∧
          s' = leftBlock P block info s t := by
    intro w s'
    unfold inScope
    cases hrunning : s.running block with
    | true =>
      rw [if_pos (by simp [hkind])]
      exact withPushed_runBlock_iff h hkept hrunning
    | false =>
      rw [if_neg (by simp), runBlock_ok_iff]
      have hentered : enteredBlock P block info s =
          { s with running := Function.update s.running block true } := by
        simp [enteredBlock, hrunning]
      have hleft : ∀ t, leftBlock P block info s t =
          { t with running := Function.update t.running block false } := by
        intro t
        simp [leftBlock, hrunning]
      rw [hentered]
      simp only [hleft]
  have hrun : yBlock P evaluate false block info statements s = (do
      let value ← inScope P info (s.running block)
        (runBlock evaluate block (s.running block) statements)
      return blockValue info.kind value : M YCPValue) s := rfl
  rw [hrun, EState.bind_ok_iff]
  constructor
  · rintro ⟨w, s₁, hinner, hlast⟩
    cases hlast
    obtain ⟨t, hstatements, rfl⟩ := (hscope w _).mp hinner
    exact ⟨w, t, hstatements, rfl, rfl⟩
  · rintro ⟨w, t, hstatements, rfl, rfl⟩
    exact ⟨w, _, (hscope w _).mpr ⟨t, hstatements, rfl⟩, rfl⟩

/-- `evaluateFrom` is the evaluation of the block with the statements from the index on. -/
lemma evaluateFrom_eq (evaluate : Evaluator)
    (hblock : P.code block = some (.yeBlock info table point statements))
    (hkind : info.kind ≠ .b_module) (k : Int32) (s : State) :
    evaluateFrom P evaluate block k s =
      yBlock P evaluate false block info (statements.drop k.toInt.toNat) s := by
  have hnot : (decide (info.kind = .b_module) && s.running block) = false := by
    rw [decide_eq_false hkind]
    rfl
  unfold evaluateFrom
  rw [hblock]
  dsimp only
  rw [EState.get_bind]
  unfold inScopeFrom
  rw [if_neg (by rw [hnot]; exact Bool.false_ne_true)]
  rfl

end Blocks

/-! ### The switch -/

/-- Where the evaluation of a `switch` goes on: at the case of the value, or else at the default. -/
def startIndex (cases : List (YCPValue × Int32)) (defaultcase : Int32) (value : YCPValue) :
    Option Int32 :=
  (findCase cases value).or (if defaultcase = -1 then none else some defaultcase)

/-- What a `switch` yields for what ended its statements, null standing for their end. -/
def switchValue (kind : BlockKind) : YCPValue → YCPValue
  | .null => if kind = .b_statement then .null else .void
  | .brk => .null
  | v => v

/-- A run of a `switch` over the statements of its block. -/
inductive SwitchRuns (P : Program) (evaluate : Evaluator) (condition : CodePtr)
    (cases : List (YCPValue × Int32)) (defaultcase : Int32) (block : CodePtr) (info : BlockInfo)
    (statements : List CodePtr) (s : State) : YCPValue → State → Prop where
  | noValue {c : YCPValue} {s₁ : State} (hcondition : evaluate false condition s = .ok c s₁)
      (hnull : c.isNull = true) :
      SwitchRuns P evaluate condition cases defaultcase block info statements s .null s₁
  | noCase {c : YCPValue} {s₁ : State} (hcondition : evaluate false condition s = .ok c s₁)
      (hvalue : c.isNull = false) (hnone : startIndex cases defaultcase c = none) :
      SwitchRuns P evaluate condition cases defaultcase block info statements s .null s₁
  | starts {c w : YCPValue} {s₁ t : State} {k : Int32}
      (hcondition : evaluate false condition s = .ok c s₁) (hvalue : c.isNull = false)
      (hstart : startIndex cases defaultcase c = some k)
      (hrun : ExecutesStatements evaluate (statements.drop k.toInt.toNat)
        (enteredBlock P block info s₁) w t) :
      SwitchRuns P evaluate condition cases defaultcase block info statements s
        (switchValue info.kind w) (leftBlock P block info s₁ t)

lemma dropBreak_blockValue (kind : BlockKind) (w : YCPValue) :
    dropBreak (blockValue kind w) = switchValue kind w := by
  cases w with
  | null =>
    unfold blockValue switchValue
    split
    next hnull =>
      split
      · rfl
      · rfl
    next hnull => exact absurd rfl hnull
  | _ => rfl

lemma switchValue_ne_break (kind : BlockKind) (w : YCPValue) : (switchValue kind w).isBreak = false := by
  cases w with
  | null =>
    change (if kind = .b_statement then YCPValue.null else .void).isBreak = false
    split
    · rfl
    · rfl
  | _ => rfl

/-- What is neither a `break` nor the end of the statements escapes as it is. -/
lemma switchValue_escapes (kind : BlockKind) {w : YCPValue} (hnull : w.isNull = false)
    (hbreak : w.isBreak = false) : switchValue kind w = w := by
  cases w with
  | null => cases hnull
  | brk => cases hbreak
  | _ => rfl

section Switch

variable {P : Program} {block : CodePtr} {info : BlockInfo} {table : List (TableItem CodePtr)}
  {point : Point} {statements : List CodePtr} {evaluate : Evaluator}

/-- The two branches of `YSSwitch::evaluate` are one. -/
lemma ysSwitch_eq (condition : CodePtr) (cases : List (YCPValue × Int32)) (defaultcase : Int32) :
    ysSwitch P evaluate false condition cases defaultcase block = (do
      let value ← evaluate false condition
      if value.isNull then return .null
      else
        match startIndex cases defaultcase value with
        | some k =>
          let res ← evaluateFrom P evaluate block k
          return dropBreak res
        | none => return .null : M YCPValue) := by
  unfold ysSwitch
  rw [if_neg (by decide)]
  congr 1
  funext value
  split
  · rfl
  unfold startIndex
  cases findCase cases value with
  | some k => rfl
  | none =>
    by_cases hdefault : defaultcase = -1
    · simp [hdefault]
    · simp [hdefault]

lemma ysSwitch_ok_iff (h : Evaluates (stackDiscipline P) anyValue evaluate)
    (hblock : P.code block = some (.yeBlock info table point statements))
    (hkind : info.kind ≠ .b_module) (hkept : ∀ e ∈ P.variableSymbols info, StackKept P e)
    {condition : CodePtr} {cases : List (YCPValue × Int32)} {defaultcase : Int32} {s s' : State}
    {v : YCPValue} :
    ysSwitch P evaluate false condition cases defaultcase block s = .ok v s' ↔
      SwitchRuns P evaluate condition cases defaultcase block info statements s v s' := by
  rw [ysSwitch_eq, EState.bind_ok_iff]
  constructor
  · rintro ⟨c, s₁, hcondition, hrest⟩
    cases hnull : c.isNull with
    | true =>
      rw [hnull, if_pos rfl] at hrest
      cases hrest
      exact .noValue hcondition hnull
    | false =>
      rw [hnull, if_neg Bool.false_ne_true] at hrest
      cases hstart : startIndex cases defaultcase c with
      | none =>
        rw [hstart] at hrest
        cases hrest
        exact .noCase hcondition hnull hstart
      | some k =>
        rw [hstart] at hrest
        obtain ⟨res, s₂, hfrom, hlast⟩ := EState.bind_ok_iff.mp hrest
        cases hlast
        rw [evaluateFrom_eq evaluate hblock hkind, yBlock_ok_iff h hkind hkept] at hfrom
        obtain ⟨w, t, hrun, rfl, rfl⟩ := hfrom
        rw [dropBreak_blockValue]
        exact .starts hcondition hnull hstart hrun
  · intro hruns
    cases hruns with
    | noValue hcondition hnull =>
      refine ⟨_, _, hcondition, ?_⟩
      rw [hnull]
      rfl
    | noCase hcondition hvalue hnone =>
      refine ⟨_, _, hcondition, ?_⟩
      rw [hvalue, hnone]
      rfl
    | @starts c w s₁ t k hcondition hvalue hstart hrun =>
      refine ⟨_, _, hcondition, ?_⟩
      rw [hvalue, hstart]
      have hfrom : evaluateFrom P evaluate block k s₁ =
          .ok (blockValue info.kind w) (leftBlock P block info s₁ t) := by
        rw [evaluateFrom_eq evaluate hblock hkind, yBlock_ok_iff h hkind hkept]
        exact ⟨w, t, hrun, rfl, rfl⟩
      rw [← dropBreak_blockValue]
      exact EState.bind_ok_iff.mpr ⟨_, _, hfrom, rfl⟩

end Switch

end YastCore.Interp
