import YastCore.Lib.SortedVector
import YastCore.Value.Index

/-!
# Handles of the workflow manager

`Y2WFMComponent` keeps its SCR instances in a vector sorted by handle. The handles that the builtins
get are 64-bit integers, those of the component are of type `int`.
-/

namespace YastCore.Wfm

open YCPValue (narrow)

/-! ### The component -/

structure WFMSubAgent where
  name : Text
  handle : Int

structure Y2WFMComponent where
  scrs : List WFMSubAgent
  handle_cnt : Int
  default_handle : Int

namespace Y2WFMComponent

/-- The constructor. Where the default SCR does not start, `default_handle` is not set. -/
def construct (started : Bool) (uninitialized : Int) : Y2WFMComponent :=
  if started then ⟨[⟨"scr".toUTF8.toList, 0⟩], 1, 0⟩ else ⟨[], 1, uninitialized⟩

def findHandle (w : Y2WFMComponent) (handle : Int) : Option Nat :=
  SortedVector.find? WFMSubAgent.handle handle w.scrs

/-- `error` is what `start_and_check` reports, if it fails. -/
def scrOpen (w : Y2WFMComponent) (name : Text) (error : Option Int) : Y2WFMComponent × Int :=
  let handle := w.handle_cnt
  let w := { w with handle_cnt := w.handle_cnt + 1 }
  match error with
  | some error => (w, error)
  | none => ({ w with scrs := w.scrs ++ [⟨name, handle⟩] }, handle)

def scrClose (w : Y2WFMComponent) (h : Int64) : Y2WFMComponent :=
  let handle := narrow h
  match w.findHandle handle with
  | none => w
  | some it =>
    let w := if handle = w.default_handle then { w with default_handle := -1 } else w
    { w with scrs := w.scrs.eraseIdx it }

/-- The handle becomes the default one before it is looked for. -/
def scrSetDefault (w : Y2WFMComponent) (handle : Int64) : Y2WFMComponent :=
  { w with default_handle := narrow handle }

end Y2WFMComponent

inductive Op where
  | scrOpen (name : Text) (error : Option Int)
  | scrClose (handle : Int64)
  | scrSetDefault (handle : Int64)
deriving DecidableEq

def Y2WFMComponent.step (w : Y2WFMComponent) : Op → Y2WFMComponent
  | .scrOpen name error => (w.scrOpen name error).1
  | .scrClose handle => w.scrClose handle
  | .scrSetDefault handle => w.scrSetDefault handle

def Y2WFMComponent.run (w : Y2WFMComponent) (ops : List Op) : Y2WFMComponent := ops.foldl step w

/-! ### What the handles stand for -/

/-- The instances that are open, by handle, and the one that is the default. -/
structure Handles where
  next : Int
  live : Int → Option WFMSubAgent
  default : Option Int

namespace Handles

/-- The instance that every component starts with. -/
def start (started : Bool) : Handles :=
  if started then ⟨1, Function.update (fun _ => none) 0 (some ⟨"scr".toUTF8.toList, 0⟩), some 0⟩
  else ⟨1, fun _ => none, none⟩

/-- What is not the handle of an open instance changes nothing. -/
def step (a : Handles) : Op → Handles
  | .scrOpen name none =>
    { a with next := a.next + 1, live := Function.update a.live a.next (some ⟨name, a.next⟩) }
  | .scrOpen _ (some _) => { a with next := a.next + 1 }
  | .scrClose h =>
    if (a.live h.toInt).isSome then
      { a with
        live := Function.update a.live h.toInt none,
        default := if a.default = some h.toInt then none else a.default }
    else a
  | .scrSetDefault h => if (a.live h.toInt).isSome then { a with default := some h.toInt } else a

def run (a : Handles) (ops : List Op) : Handles := ops.foldl step a

end Handles

/-- The argument is the handle that it becomes in an `int`, or that is none of an open instance;
and the default is only set to an open instance, or to what it is. -/
def Faithful (w : Y2WFMComponent) : Op → Prop
  | .scrOpen _ _ => True
  | .scrClose h => (w.findHandle (narrow h)).isSome = true → narrow h = h.toInt
  | .scrSetDefault h =>
    (w.findHandle (narrow h)).isSome = true ∧ narrow h = h.toInt ∨ narrow h = w.default_handle

/-- All steps of a run are faithful. -/
def AllFaithful (w : Y2WFMComponent) : List Op → Prop
  | [] => True
  | op :: ops => Faithful w op ∧ AllFaithful (w.step op) ops

/-- The component is consistent with the instances that are open. -/
structure Consistent (w : Y2WFMComponent) (a : Handles) : Prop where
  sorted : w.scrs.Pairwise fun x y => x.handle < y.handle
  found : ∀ h, (w.findHandle h).isSome = (a.live h).isSome
  default : w.default_handle = -1 ∨ (a.live w.default_handle).isSome = true
  unchanged : ∀ h : Int64, (a.live h.toInt).isSome = false →
    (Faithful w (.scrClose h) → w.scrClose h = w) ∧
      (Faithful w (.scrSetDefault h) → w.scrSetDefault h = w)

/-! ### Steps -/

/-- The vector, the counter and the default are those of the abstract state; the handles that were
given fit into an `int`. -/
structure Simulates (w : Y2WFMComponent) (a : Handles) : Prop where
  represents : SortedVector.Represents WFMSubAgent.handle w.scrs a.live
  next : w.handle_cnt = a.next
  positive : 0 < a.next
  range : ∀ h, (a.live h).isSome = true → 0 ≤ h ∧ h < a.next
  default : w.default_handle = a.default.getD (-1)
  defaultLive : ∀ h, a.default = some h → (a.live h).isSome = true

variable {w : Y2WFMComponent} {a : Handles}

lemma Simulates.found (R : Simulates w a) (h : Int) :
    (w.findHandle h).isSome = (a.live h).isSome := by
  rw [Bool.eq_iff_iff, Option.isSome_iff_ne_none, Option.isSome_iff_ne_none, not_iff_not]
  exact R.represents.find?_eq_none_iff

lemma narrow_of_range {h : Int64} (hlow : 0 ≤ h.toInt) (hhigh : h.toInt < 2 ^ 31) :
    narrow h = h.toInt := by
  unfold narrow
  rw [Int.bmod_eq_of_le]
  · omega
  · omega

/-- A handle of an open instance passes through an `int`. -/
lemma Simulates.narrow_live (R : Simulates w a) (hnext : a.next ≤ 2 ^ 31) {h : Int64}
    (hlive : (a.live h.toInt).isSome = true) : narrow h = h.toInt := by
  obtain ⟨hlow, hhigh⟩ := R.range _ hlive
  exact narrow_of_range hlow (by omega)

lemma Simulates.scrOpen (R : Simulates w a) (name : Text) (error : Option Int) :
    Simulates (w.step (.scrOpen name error)) (a.step (.scrOpen name error)) := by
  have hrange : ∀ h, (a.live h).isSome = true → 0 ≤ h ∧ h < a.next + 1 := by
    intro h hlive
    have := R.range h hlive
    omega
  cases error with
  | some error =>
    exact { R with
      next := congrArg (· + 1) R.next
      positive := Int.lt_add_one_of_le (Int.le_of_lt R.positive)
      range := hrange }
  | none =>
    have hfresh : a.live a.next = none := by
      by_contra hsome
      have := R.range a.next (Option.isSome_iff_ne_none.mpr hsome)
      omega
    have hless : ∀ x ∈ w.scrs, compare x.handle a.next = .lt := by
      intro x hx
      have hlive := (R.represents.mem x.handle x).mpr ⟨hx, rfl⟩
      rw [Int.compare_eq_lt]
      exact (R.range x.handle (by rw [hlive]; rfl)).2
    have hstep : (w.step (.scrOpen name none)).scrs = w.scrs ++ [⟨name, a.next⟩] := by
      rw [← R.next]
      rfl
    refine ⟨?_, congrArg (· + 1) R.next, Int.lt_add_one_of_le (Int.le_of_lt R.positive), ?_,
      R.default, ?_⟩
    · rw [hstep]
      exact SortedVector.Represents.push R.represents hless
    · intro h hlive
      by_cases heq : h = a.next
      · have := R.positive
        change 0 ≤ h ∧ h < a.next + 1
        omega
      · change (Function.update a.live a.next _ h).isSome = true at hlive
        rw [Function.update_of_ne heq] at hlive
        exact hrange h hlive
    · intro h hdefault
      have hlive := R.defaultLive h hdefault
      by_cases heq : h = a.next
      · rw [heq, hfresh] at hlive
        cases hlive
      · change (Function.update a.live a.next _ h).isSome = true
        rw [Function.update_of_ne heq]
        exact hlive

lemma scrClose_notFound {h : Int64} (hfind : w.findHandle (narrow h) = none) :
    w.step (.scrClose h) = w := by
  change w.scrClose h = w
  unfold Y2WFMComponent.scrClose
  dsimp only
  rw [hfind]

lemma scrClose_found {h : Int64} {it : Nat} (hfind : w.findHandle (narrow h) = some it) :
    w.step (.scrClose h) = ⟨w.scrs.eraseIdx it, w.handle_cnt,
      if narrow h = w.default_handle then -1 else w.default_handle⟩ := by
  change w.scrClose h = _
  unfold Y2WFMComponent.scrClose
  dsimp only
  rw [hfind]
  dsimp only
  split
  · rfl
  · rfl

lemma Simulates.scrClose (R : Simulates w a) (hnext : a.next ≤ 2 ^ 31) {h : Int64}
    (hfaithful : Faithful w (.scrClose h)) :
    Simulates (w.step (.scrClose h)) (a.step (.scrClose h)) := by
  cases hfind : w.findHandle (narrow h) with
  | none =>
    have hdead : ¬ (a.live h.toInt).isSome = true := by
      intro hlive
      have hnarrow := R.narrow_live hnext hlive
      rw [← R.found, ← hnarrow, hfind] at hlive
      cases hlive
    have ha : a.step (.scrClose h) = a := if_neg hdead
    rw [scrClose_notFound hfind, ha]
    exact R
  | some it =>
    have hnarrow : narrow h = h.toInt := hfaithful (by rw [hfind]; rfl)
    have hlive : (a.live h.toInt).isSome = true := by
      rw [← R.found, ← hnarrow, hfind]
      rfl
    have hw : w.step (.scrClose h) = ⟨w.scrs.eraseIdx it, w.handle_cnt,
        if h.toInt = w.default_handle then -1 else w.default_handle⟩ := by
      rw [← hnarrow]
      exact scrClose_found hfind
    have ha : a.step (.scrClose h) = { a with
        live := Function.update a.live h.toInt none,
        default := if a.default = some h.toInt then none else a.default } := if_pos hlive
    rw [hw, ha]
    rw [hnarrow] at hfind
    refine ⟨R.represents.erase hfind, R.next, R.positive, ?_, ?_, ?_⟩
    · intro h' hlive'
      by_cases heq : h' = h.toInt
      · rw [heq] at hlive'
        simp at hlive'
      · simp only [Function.update_of_ne heq] at hlive'
        exact R.range h' hlive'
    · rw [R.default]
      have hpositive := (R.range _ hlive).1
      cases hd : a.default with
      | none =>
        rw [if_neg (by simp only [Option.getD_none]; omega), if_neg (by simp)]
      | some d =>
        by_cases heq : d = h.toInt
        · rw [if_pos (by simp [heq]), if_pos (by rw [heq])]
          rfl
        · rw [if_neg (by simpa using fun h => heq h.symm), if_neg (by simpa using heq)]
    · intro d hd
      split at hd
      · cases hd
      next hne =>
        have hd' : d ≠ h.toInt := by
          rintro rfl
          exact hne hd
        simp only [Function.update_of_ne hd']
        exact R.defaultLive d hd

lemma Simulates.scrSetDefault (R : Simulates w a) (hnext : a.next ≤ 2 ^ 31) {h : Int64}
    (hfaithful : Faithful w (.scrSetDefault h)) :
    Simulates (w.step (.scrSetDefault h)) (a.step (.scrSetDefault h)) := by
  by_cases hlive : (a.live h.toInt).isSome = true
  · have ha : a.step (.scrSetDefault h) = { a with default := some h.toInt } := if_pos hlive
    rw [ha]
    refine { R with default := R.narrow_live hnext hlive, defaultLive := ?_ }
    intro d hd
    cases hd
    exact hlive
  · have ha : a.step (.scrSetDefault h) = a := if_neg hlive
    have hnarrow : narrow h = w.default_handle := by
      rcases hfaithful with ⟨hfound, hnarrow⟩ | hnarrow
      · rw [R.found, hnarrow] at hfound
        exact absurd hfound hlive
      · exact hnarrow
    rw [ha]
    exact { R with default := hnarrow.trans R.default }

/-! ### Runs -/

def Op.opens : Op → Bool
  | .scrOpen _ _ => true
  | _ => false

lemma Handles.next_step (a : Handles) (op : Op) :
    (a.step op).next = a.next + if op.opens then 1 else 0 := by
  cases op with
  | scrOpen name error => cases error <;> rfl
  | scrClose h =>
    simp only [Handles.step, Op.opens, Bool.false_eq_true, if_false, Int.add_zero]
    split
    · rfl
    · rfl
  | scrSetDefault h =>
    simp only [Handles.step, Op.opens, Bool.false_eq_true, if_false, Int.add_zero]
    split
    · rfl
    · rfl

lemma Simulates.step (R : Simulates w a) (hnext : a.next ≤ 2 ^ 31) {op : Op}
    (hfaithful : Faithful w op) : Simulates (w.step op) (a.step op) := by
  cases op with
  | scrOpen name error => exact R.scrOpen name error
  | scrClose h => exact R.scrClose hnext hfaithful
  | scrSetDefault h => exact R.scrSetDefault hnext hfaithful

lemma Simulates.run (R : Simulates w a) {ops : List Op} (hnext : a.next + ops.countP Op.opens ≤ 2 ^ 31)
    (hfaithful : AllFaithful w ops) :
    Simulates (w.run ops) (a.run ops) := by
  induction ops generalizing w a with
  | nil => exact R
  | cons op ops ih =>
    rw [List.countP_cons] at hnext
    refine ih (R.step (by omega) hfaithful.1) ?_ hfaithful.2
    rw [Handles.next_step]
    split
    next hopens =>
      rw [if_pos hopens] at hnext
      omega
    · omega

lemma simulates_construct {started : Bool} {uninitialized : Int}
    (hstart : started = true ∨ uninitialized = -1) :
    Simulates (.construct started uninitialized) (.start started) := by
  cases started with
  | false =>
    have hdefault : uninitialized = -1 := by simpa using hstart
    exact ⟨SortedVector.represents_nil _, rfl, by decide, by simp [Handles.start], hdefault,
      by simp [Handles.start]⟩
  | true =>
    refine ⟨(SortedVector.represents_nil _).push (by simp), rfl, by decide, ?_, rfl, ?_⟩
    · intro h hlive
      by_cases heq : h = 0
      · rw [heq]
        decide
      · simp [Handles.start, Function.update_of_ne heq] at hlive
    · intro h hdefault
      cases hdefault
      rfl

lemma Simulates.consistent (R : Simulates w a) : Consistent w a where
  sorted := by
    refine R.represents.sorted.imp fun {x y} hxy => ?_
    rwa [Int.compare_eq_lt] at hxy
  found := R.found
  default := by
    rw [R.default]
    cases hd : a.default with
    | none => exact .inl rfl
    | some d => exact .inr (R.defaultLive d hd)
  unchanged := by
    intro h hdead
    constructor
    · intro hfaithful
      cases hfind : w.findHandle (narrow h) with
      | none => exact scrClose_notFound hfind
      | some it =>
        have hnarrow := hfaithful (by rw [hfind]; rfl)
        rw [← R.found, ← hnarrow, hfind] at hdead
        cases hdead
    · intro hfaithful
      rcases hfaithful with ⟨hfound, hnarrow⟩ | hnarrow
      · rw [R.found, hnarrow, hdead] at hfound
        cases hfound
      · unfold Y2WFMComponent.scrSetDefault
        rw [hnarrow]

/-- Over every sequence of calls with fewer than 2^31 opens, the vector is sorted, exactly the open
instances are found, other arguments change nothing and the default is -1 or open, provided that the
default SCR started and every argument is faithful. -/
theorem handles_consistent (started : Bool) (uninitialized : Int)
    (hstart : started = true ∨ uninitialized = -1) (ops : List Op)
    (hopens : ops.countP Op.opens < 2 ^ 31)
    (hfaithful : AllFaithful (.construct started uninitialized) ops) :
    Consistent ((Y2WFMComponent.construct started uninitialized).run ops)
      ((Handles.start started).run ops) := by
  have hnext : (Handles.start started).next = 1 := by cases started <;> rfl
  exact ((simulates_construct hstart).run (by omega) hfaithful).consistent

/-- Two instances are opened, the second is made the default one and closed. -/
theorem handles_consistent_two :
    Consistent ((Y2WFMComponent.construct true 0).run
        [.scrOpen [] none, .scrOpen [] none, .scrSetDefault 2, .scrClose 2])
      ((Handles.start true).run [.scrOpen [] none, .scrOpen [] none, .scrSetDefault 2, .scrClose 2]) := by
  refine handles_consistent true 0 (.inl rfl) _ (by decide) ⟨trivial, trivial, ?_, ?_, trivial⟩
  · exact .inl ⟨by decide, by decide⟩
  · intro _
    decide

/-- The handle 2^32 + 1 closes the instance 1, and the handle 99 becomes the default one. -/
theorem handles_inconsistent :
    ((Y2WFMComponent.construct true 0).run [.scrOpen [] none, .scrClose (2 ^ 32 + 1)]).findHandle 1 =
        none ∧
      (((Handles.start true).run [.scrOpen [] none, .scrClose (2 ^ 32 + 1)]).live 1).isSome = true ∧
      ((Y2WFMComponent.construct true 0).run [.scrSetDefault 99]).default_handle = 99 ∧
      ((Y2WFMComponent.construct true 0).run [.scrSetDefault 99]).findHandle 99 = none := by
  decide

end YastCore.Wfm
