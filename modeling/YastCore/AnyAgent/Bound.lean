import YastCore.AnyAgent.Parse

/-!
# A larger bound

What the parser gives within a bound it gives within every larger one.
-/

namespace YastCore.AnyAgent

open Bounded Lines Transport YCPValue

/-- The second parser keeps what the first one gives. -/
def Keeps (parse parse' : Parser) : Prop :=
  ∀ line e optional s, Extends (parse line e optional s) (parse' line e optional s)

section

variable {d : Description} {alldata : List Text} {parse parse' : Parser} {line : Option Cursor} {optional : Bool}
  {s : ParserState}

lemma parseChoice_extends (h : Keeps parse parse') (elements : List YCPValue) :
    Extends (parseChoice parse line optional elements s) (parseChoice parse' line optional elements s) := by
  induction elements generalizing s with
  | nil => exact .refl _
  | cons element rest ih =>
    rw [parseChoice, parseChoice]
    cases alternative element with
    | none => exact .refl _
    | some a =>
      refine (h _ _ _ _).bind fun r => ?_
      exact .ite ih (.ite (.refl _) (h _ _ _ _))

lemma parseEach_extends (h : Keeps parse parse') (elements : List YCPValue) (last : Parsed) :
    Extends (parseEach parse optional elements last) (parseEach parse' optional elements last) := by
  induction elements generalizing last with
  | nil => exact .refl _
  | cons e elements ih =>
    rw [parseEach, parseEach]
    exact (h _ _ _ _).bind fun r => .ite (.refl _) (ih r)

lemma parseSequence_extends (h : Keeps parse parse') (lstart : Cursor) (elements : List YCPValue) :
    Extends (parseSequence parse lstart elements optional s) (parseSequence parse' lstart elements optional s) :=
  (parseEach_extends h elements _).bind fun _ => .refl _

lemma parseOr_extends (h : Keeps parse parse') (elements : List YCPValue) (ltry : Option Cursor) :
    Extends (parseOr parse line optional elements ltry s) (parseOr parse' line optional elements ltry s) := by
  induction elements generalizing ltry s with
  | nil => exact .refl _
  | cons e elements ih =>
    rw [parseOr, parseOr]
    exact (h _ _ _ _).bind fun r => .ite (ih r.line) (.refl _)

lemma parseList_extends (h : Keeps parse parse') (e separator : YCPValue) (n : ℕ) (values : List YCPValue) :
    Extends (parseList parse e separator n line optional values s)
      (parseList parse' e separator (n + 1) line optional values s) := by
  induction n generalizing line optional values s with
  | zero => exact extends_pending _
  | succ n ih =>
    rw [parseList, parseList]
    refine (h _ _ _ _).bind fun vl => .ite (.refl _) ?_
    exact (h _ _ _ _).bind fun vs => .ite (.refl _) (ih _)

lemma parseTuple_extends (h : Keeps parse parse') (elements : List YCPValue) (n : ℕ) (rest : List YCPValue)
    (entries : List (YCPValue × YCPValue)) :
    Extends (parseTuple parse elements n line rest optional entries s)
      (parseTuple parse' elements (n + 1) line rest optional entries s) := by
  induction n generalizing line rest optional entries s with
  | zero =>
    cases rest with
    | nil => exact .refl _
    | cons e rest => exact extends_pending _
  | succ n ih =>
    cases rest with
    | nil => exact .refl _
    | cons e rest =>
      rw [parseTuple, parseTuple]
      exact (h _ _ _ _).bind fun r => .ite (.refl _) (.ite (ih _ _) (ih _ _))

lemma fillupLoop_extends (n : ℕ) (fillup : Text) :
    Extends (d.fillupLoop alldata n fillup line s) (d.fillupLoop alldata (n + 1) fillup line s) := by
  induction n generalizing fillup line s with
  | zero => exact extends_pending _
  | succ n ih =>
    cases line with
    | none => exact .refl _
    | some c =>
      rw [Description.fillupLoop, Description.fillupLoop]
      exact .ite (ih _) (.refl _)

lemma parseConstruct_extends (h : Keeps parse parse') (n : ℕ) (line : Cursor) (construct : Construct) :
    Extends (d.parseConstruct alldata parse n line optional s construct)
      (d.parseConstruct alldata parse' (n + 1) line optional s construct) := by
  cases construct with
  | optional e => exact (h _ _ _ _).bind fun _ => .refl _
  | continues e => exact (h _ _ _ _).bind fun _ => .refl _
  | choice elements => exact parseChoice_extends h elements
  | sequence elements => exact parseSequence_extends h line elements
  | list e separator => exact parseList_extends h e separator n []
  | tuple elements => exact (parseTuple_extends h elements n elements []).bind fun _ => .refl _
  | var elements => exact (parseEach_extends h elements _).bind fun _ => .refl _
  | name e => exact (h _ _ _ _).bind fun _ => .refl _
  | value e => exact (h _ _ _ _).bind fun _ => .refl _
  | fillup => exact (fillupLoop_extends n []).bind fun _ => .refl _
  | skip => exact .refl _
  | current => exact .refl _
  | or elements => exact parseOr_extends h elements _
  | basic p => exact .refl _
  | named name e => exact (h _ _ _ _).bind fun _ => .refl _
  | unknown => exact .refl _
  | bad => exact .refl _
  | undefined => exact .refl _

end

/-- One nested call or turn more does not change a result. -/
lemma parseData_extends (d : Description) (alldata : List Text) (n : ℕ) :
    Keeps (d.parseData alldata n) (d.parseData alldata (n + 1)) := by
  induction n with
  | zero =>
    intro line e optional s
    exact extends_pending _
  | succ n ih =>
    intro line e optional s
    rw [Description.parseData, Description.parseData]
    cases d.nextText alldata line s with
    | mk line' s' =>
      cases line' with
      | none => exact .refl _
      | some c => exact parseConstruct_extends ih n c _

/-- One bound within which the parser gives a result is enough. -/
theorem parseData_settles {d : Description} {alldata : List Text} {n : ℕ} {line : Option Cursor} {e : YCPValue}
    {optional : Bool} {s : ParserState} {r : Parsed} (h : d.parseData alldata n line e optional s = .gives r) :
    Settles (fun n => d.parseData alldata n line e optional s) (.gives r) :=
  settles_of_extends (fun n => parseData_extends d alldata n line e optional s) h

end YastCore.AnyAgent
