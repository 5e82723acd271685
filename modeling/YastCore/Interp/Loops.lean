import YastCore.Lib.Exec
import YastCore.Value.Basic

/-!
# The loop statements

`while`, `repeat … until` and `do … while` of `YStatement.cc`, over an arbitrary condition and an
arbitrary body. Fuel counts the passes of the C++ `for (;;)`.
-/

namespace YastCore

/-- How a run of the interpreter ends without a value. -/
inductive Fault where
  | outOfFuel
  | crash
deriving DecidableEq, Repr

inductive LoopKind where
  | whileLoop
  | repeatLoop
  | doLoop
deriving DecidableEq, Repr

section Statements

variable {m : Type → Type} [Monad m] [MonadExceptOf Fault m]

/-- `YSWhile::evaluate` with `cse` false. -/
def ysWhile (condition : m YCPValue) (loop : Option (m YCPValue)) : Nat → m YCPValue
  | 0 => throw .outOfFuel
  | fuel + 1 => do
    let bval ← condition
    if bval.isNull then
      return .null
    else
      match bval with
      | .boolean true =>
        match loop with
        | none => ysWhile condition loop fuel
        | some body => do
          let lval ← body
          if lval.isNull then
            ysWhile condition loop fuel
          else if lval.isBreak then
            return .null
          else if lval.isReturn then
            return lval
          else if lval.isVoid then
            ysWhile condition loop fuel
          else
            return lval
      | _ => return .null

/-- The body of `YSRepeat::evaluate` and `YSDo::evaluate`, which differ in the value of the
condition that ends the loop. -/
def bodyFirstLoop (stop : Bool) (condition : m YCPValue) (loop : Option (m YCPValue)) :
    Nat → m YCPValue
  | 0 => throw .outOfFuel
  | fuel + 1 => do
    let lval ← loop.getD (pure .null)
    if lval.isNull || lval.isVoid then do
      let bval ← condition
      if bval.isNull then
        return .null
      else
        match bval with
        | .boolean b => if b = stop then return .null else bodyFirstLoop stop condition loop fuel
        | _ => return .null
    else if lval.isBreak then
      return .null
    else if lval.isReturn then
      return lval
    else
      return lval

/-- `YSRepeat::evaluate` with `cse` false. -/
def ysRepeat (condition : m YCPValue) (loop : Option (m YCPValue)) : Nat → m YCPValue :=
  bodyFirstLoop true condition loop

/-- `YSDo::evaluate` with `cse` false. -/
def ysDo (condition : m YCPValue) (loop : Option (m YCPValue)) : Nat → m YCPValue :=
  bodyFirstLoop false condition loop

end Statements

section Loops

variable {σ : Type}

def LoopKind.evaluate : LoopKind → Exec Fault σ YCPValue → Option (Exec Fault σ YCPValue) →
    Nat → Exec Fault σ YCPValue
  | whileLoop => ysWhile
  | repeatLoop => ysRepeat
  | doLoop => ysDo

/-! ### The common semantics -/

/-- What the value of a body means for the loop around it. -/
inductive Control where
  | next
  | leave (v : YCPValue)

def control : YCPValue → Control
  | .null => .next
  | .void => .next
  | .brk => .leave .null
  | v => .leave v

/-- The value of the condition that lets the loop go on. -/
def LoopKind.goOn : LoopKind → Bool
  | whileLoop => true
  | repeatLoop => false
  | doLoop => true

/-- The test of the condition, `again` being the rest of the loop. -/
def testCondition (goOn : Bool) (condition again : Exec Fault σ YCPValue) :
    Exec Fault σ YCPValue := do
  let bval ← condition
  match bval with
  | .boolean b => if b = goOn then again else return .null
  | _ => return .null

/-- One pass through the body, `again` being the rest of the loop. -/
def runBody (body again : Exec Fault σ YCPValue) : Exec Fault σ YCPValue := do
  let lval ← body
  match control lval with
  | .next => again
  | .leave v => return v

/-- The control flow that the three loop statements are meant to share. -/
def LoopKind.spec (kind : LoopKind) (condition body : Exec Fault σ YCPValue) :
    Nat → Exec Fault σ YCPValue
  | 0 => throw .outOfFuel
  | fuel + 1 =>
    match kind with
    | whileLoop => testCondition kind.goOn condition (runBody body (kind.spec condition body fuel))
    | _ => runBody body (testCondition kind.goOn condition (kind.spec condition body fuel))

variable {condition body : Exec Fault σ YCPValue} {loop : Option (Exec Fault σ YCPValue)}

lemma runBody_eq (body again : Exec Fault σ YCPValue) :
    runBody body again = (do
      let lval ← body
      if lval.isNull then again
      else if lval.isBreak then return .null
      else if lval.isReturn then return lval
      else if lval.isVoid then again
      else return lval) := by
  unfold runBody
  congr 1
  funext lval
  cases lval <;> rfl

/-- The `while` statement has the common semantics, whatever its body yields. -/
lemma ysWhile_eq_spec (condition : Exec Fault σ YCPValue)
    (loop : Option (Exec Fault σ YCPValue)) (fuel : Nat) :
    ysWhile condition loop fuel =
      LoopKind.whileLoop.spec condition (loop.getD (pure .null)) fuel := by
  induction fuel with
  | zero => rfl
  | succ fuel ih =>
    unfold ysWhile LoopKind.spec testCondition
    dsimp only
    congr 1
    funext bval
    cases bval with
    | boolean b =>
      cases b with
      | false => rfl
      | true =>
        cases loop with
        | none => exact ih
        | some body =>
          rw [← ih]
          exact (runBody_eq body _).symm
    | _ => rfl

/-- The states in which a `repeat` or `do` loop started in `s` runs its body. -/
inductive BodyAt (kind : LoopKind) (condition body : Exec Fault σ YCPValue) : σ → σ → Prop where
  | first (s : σ) : BodyAt kind condition body s s
  | again {s s₁ s₂ s' : σ} {lval : YCPValue} (run : body s = .ok (lval, s₁))
      (goes : lval = .null ∨ lval = .void) (test : condition s₁ = .ok (.boolean kind.goOn, s₂))
      (rest : BodyAt kind condition body s₂ s') : BodyAt kind condition body s s'

/-- No run of the body inside the loop yields the value of `return;`. -/
def NoReturn (kind : LoopKind) (condition body : Exec Fault σ YCPValue) (s : σ) : Prop :=
  ∀ s', BodyAt kind condition body s s' → ∀ s'', body s' ≠ .ok (.ret, s'')

lemma NoReturn.next {kind : LoopKind} {s s₁ s₂ : σ} {lval : YCPValue}
    (h : NoReturn kind condition body s) (run : body s = .ok (lval, s₁))
    (goes : lval = .null ∨ lval = .void) (test : condition s₁ = .ok (.boolean kind.goOn, s₂)) :
    NoReturn kind condition body s₂ :=
  fun s' hs' => h s' (.again run goes test hs')

/-- The test that the `repeat` and `do` loops make after their body. -/
lemma bodyFirstLoop_succ (stop : Bool) (condition : Exec Fault σ YCPValue)
    (loop : Option (Exec Fault σ YCPValue)) (fuel : Nat) :
    bodyFirstLoop stop condition loop (fuel + 1) = (do
      let lval ← loop.getD (pure .null)
      if lval.isNull || lval.isVoid then
        testCondition (!stop) condition (bodyFirstLoop stop condition loop fuel)
      else if lval.isBreak then return .null
      else return lval) := by
  rw [bodyFirstLoop]
  congr 1
  funext lval
  have htest : (do
      let bval ← condition
      if bval.isNull then return .null
      else
        match bval with
        | .boolean b => if b = stop then return .null else bodyFirstLoop stop condition loop fuel
        | _ => return .null) =
      testCondition (!stop) condition (bodyFirstLoop stop condition loop fuel) := by
    rw [testCondition]
    congr 1
    funext bval
    cases bval with
    | boolean b => cases b <;> cases stop <;> rfl
    | _ => rfl
  rw [htest, ite_self]

/-- The two loops that run their body first take `return;` for a `continue`. -/
lemma bodyFirstLoop_ne_ret (stop : Bool) (condition : Exec Fault σ YCPValue)
    (loop : Option (Exec Fault σ YCPValue)) (fuel : Nat) (s s' : σ) :
    bodyFirstLoop stop condition loop fuel s ≠ .ok (.ret, s') := by
  induction fuel generalizing s with
  | zero => simp [bodyFirstLoop]
  | succ fuel ih =>
    rw [bodyFirstLoop_succ]
    intro h
    obtain ⟨lval, s₁, -, h⟩ := Exec.bind_ok_iff.mp h
    by_cases hgo : lval.isNull || lval.isVoid
    · rw [if_pos hgo] at h
      obtain ⟨bval, s₂, -, h⟩ := Exec.bind_ok_iff.mp h
      cases bval with
      | boolean b =>
        by_cases hb : b = !stop
        · simp only [hb, if_true] at h
          exact ih s₂ h
        · simp [hb] at h
      | _ => simp at h
    · rw [if_neg hgo] at h
      cases lval <;> simp [YCPValue.isNull, YCPValue.isVoid, YCPValue.isBreak] at h hgo

lemma LoopKind.spec_bodyFirst {kind : LoopKind} (hkind : kind ≠ .whileLoop)
    (condition body : Exec Fault σ YCPValue) (fuel : Nat) :
    kind.spec condition body (fuel + 1) =
      runBody body (testCondition kind.goOn condition (kind.spec condition body fuel)) := by
  cases kind with
  | whileLoop => exact absurd rfl hkind
  | repeatLoop => rfl
  | doLoop => rfl

/-- As long as the body yields no `return;` the two loops have the common semantics. -/
lemma bodyFirstLoop_eq_spec (kind : LoopKind) (hkind : kind ≠ .whileLoop) (fuel : Nat) (s : σ)
    (h : NoReturn kind condition (loop.getD (pure .null)) s) :
    bodyFirstLoop (!kind.goOn) condition loop fuel s =
      kind.spec condition (loop.getD (pure .null)) fuel s := by
  induction fuel generalizing s with
  | zero => rfl
  | succ fuel ih =>
    rw [LoopKind.spec_bodyFirst hkind, bodyFirstLoop_succ, Bool.not_not]
    cases hbody : loop.getD (pure .null) s with
    | error e => rw [Exec.bind_of_error hbody, runBody, Exec.bind_of_error hbody]
    | ok p =>
      obtain ⟨lval, s₁⟩ := p
      rw [Exec.bind_of_ok hbody, runBody, Exec.bind_of_ok hbody]
      have hnext (hl : lval = .null ∨ lval = .void) :
          testCondition kind.goOn condition (bodyFirstLoop (!kind.goOn) condition loop fuel) s₁ =
            testCondition kind.goOn condition
              (kind.spec condition (loop.getD (pure .null)) fuel) s₁ := by
        cases htest : condition s₁ with
        | error e => rw [testCondition, testCondition, Exec.bind_of_error htest,
            Exec.bind_of_error htest]
        | ok q =>
          obtain ⟨bval, s₂⟩ := q
          rw [testCondition, testCondition, Exec.bind_of_ok htest, Exec.bind_of_ok htest]
          cases bval with
          | boolean b =>
            by_cases hb : b = kind.goOn
            · subst hb
              simp only [if_true]
              exact ih s₂ (h.next hbody hl htest)
            · simp only [hb, if_false]
          | _ => rfl
      cases lval with
      | null => exact hnext (.inl rfl)
      | void => exact hnext (.inr rfl)
      | ret => exact absurd hbody (h s (.first s) s₁)
      | _ => rfl

/-- Where the body does yield `return;` the common semantics ends the loop with that value. -/
lemma spec_ret_of_bodyAt {kind : LoopKind} (hkind : kind ≠ .whileLoop) {s s' s'' : σ}
    (h : BodyAt kind condition body s s') (hret : body s' = .ok (.ret, s'')) :
    ∃ fuel, kind.spec condition body fuel s = .ok (.ret, s'') := by
  induction h with
  | first s =>
    refine ⟨1, ?_⟩
    rw [LoopKind.spec_bodyFirst hkind, runBody, Exec.bind_of_ok hret]
    rfl
  | @again s s₁ s₂ s' lval run goes test _ ih =>
    obtain ⟨fuel, hfuel⟩ := ih hret
    refine ⟨fuel + 1, ?_⟩
    rw [LoopKind.spec_bodyFirst hkind, runBody, Exec.bind_of_ok run]
    have hcontrol : control lval = .next := by
      rcases goes with rfl | rfl <;> rfl
    rw [hcontrol]
    dsimp only
    rw [testCondition, Exec.bind_of_ok test]
    simp only [if_true]
    exact hfuel

/-- The three loop statements follow the common control flow, for any number of passes, exactly
when the loop is a `while` or its body never yields the value of `return;`. -/
theorem loop_evaluate_eq_spec_iff (kind : LoopKind) (condition : Exec Fault σ YCPValue)
    (loop : Option (Exec Fault σ YCPValue)) (s : σ) :
    (∀ fuel, kind.evaluate condition loop fuel s =
      kind.spec condition (loop.getD (pure .null)) fuel s) ↔
    (kind = .whileLoop ∨ NoReturn kind condition (loop.getD (pure .null)) s) := by
  by_cases hkind : kind = .whileLoop
  · subst hkind
    simp only [true_or, iff_true]
    intro fuel
    exact congrFun (ysWhile_eq_spec condition loop fuel) s
  have hcode (fuel : Nat) : kind.evaluate condition loop fuel =
      bodyFirstLoop (!kind.goOn) condition loop fuel := by
    cases kind with
    | whileLoop => exact absurd rfl hkind
    | repeatLoop => rfl
    | doLoop => rfl
  constructor
  · intro h
    refine .inr fun s' hs' s'' hret => ?_
    obtain ⟨fuel, hfuel⟩ := spec_ret_of_bodyAt hkind hs' hret
    refine bodyFirstLoop_ne_ret (!kind.goOn) condition loop fuel s s'' ?_
    rw [← hcode, h fuel, hfuel]
  · rintro (h | h) fuel
    · exact absurd h hkind
    · rw [hcode]
      exact bodyFirstLoop_eq_spec kind hkind fuel s h

end Loops

/-- `repeat { return; } until (true);` ends with null instead of the returned value. -/
theorem ysRepeat_return_lost :
    LoopKind.repeatLoop.evaluate (pure (.boolean true)) (some (pure .ret)) 1 () =
        .ok (.null, ()) ∧
      LoopKind.repeatLoop.evaluate (pure (.boolean true)) (some (pure .ret)) 1 () ≠
        LoopKind.repeatLoop.spec (pure (.boolean true)) (pure .ret) 1 () := by
  refine ⟨rfl, ?_⟩
  intro h
  have hspec : LoopKind.repeatLoop.spec (pure (.boolean true)) (pure .ret) 1 () =
      .ok (.ret, ()) := rfl
  rw [hspec] at h
  cases h

end YastCore
