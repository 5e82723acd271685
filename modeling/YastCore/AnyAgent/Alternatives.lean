import YastCore.AnyAgent.Forward

/-!
# Alternatives

`Or` and `Choice` try one syntax after the other. Neither puts back the lines that a failed alternative has
gotten, and `Or` does not put back the pointer either, so that the next alternative starts where the failed ones
have left off.
-/

namespace YastCore.AnyAgent

open Bounded Lines Transport YCPValue

/-- The alternatives of `Or` fail, each where the one before it left off; where the next one starts. -/
inductive OrReaches (parse : Parser) :
    List YCPValue → Option Cursor → ParserState → Option Cursor → ParserState → Prop where
  | here (ltry : Option Cursor) (s : ParserState) : OrReaches parse [] ltry s ltry s
  | failed {e : YCPValue} {elements : List YCPValue} {ltry line : Option Cursor} {s t : ParserState} {r : Parsed}
      (run : parse ltry e false s = .gives r) (null : r.value.isNull = true)
      (more : OrReaches parse elements r.line r.state line t) : OrReaches parse (e :: elements) ltry s line t

/-- The alternatives of `Choice` fail, each at the pointer where it began. -/
inductive ChoiceReaches (parse : Parser) (line : Option Cursor) :
    List YCPValue → ParserState → ParserState → Prop where
  | here (s : ParserState) : ChoiceReaches parse line [] s s
  | failed {element : YCPValue} {a : YCPValue × YCPValue} {elements : List YCPValue} {s t : ParserState} {r : Parsed}
      (alternative : alternative element = some a) (run : parse line a.1 false s = .gives r)
      (null : r.value.isNull = true)
      (more : ChoiceReaches parse line elements { r.state with currentMatch := r.value } t) :
      ChoiceReaches parse line (element :: elements) s t

/-- An alternative of `Choice`: its match, and its action if that fits. -/
def runChoice (parse : Parser) (a : YCPValue × YCPValue) (line : Option Cursor) (optional : Bool) (s : ParserState) :
    Answer Parsed := do
  let r ← parse line a.1 false s
  let s := { r.state with currentMatch := r.value }
  if r.value.isNull || a.2.isNull then pure ⟨r.value, r.line, s⟩ else parse r.line a.2 optional s

/-- The same lines are still to be gotten. -/
def SameLines (s t : ParserState) : Prop := t.nextLine = s.nextLine ∧ t.got_anything = s.got_anything

/-- The state with the lines of another one still to be gotten. -/
def withLinesOf (s t : ParserState) : ParserState :=
  { t with nextLine := s.nextLine, got_anything := s.got_anything }

/-- The same result, and the same text taken. -/
def SameParse (r r' : Parsed) : Prop :=
  r'.value = r.value ∧ r'.line = r.line ∧ r'.state.nextLine = r.state.nextLine

/-- What the alternative gives that `run` stands for is what it gives at the start, and the failed ones before it
have left nothing behind. -/
structure Independent (run : Option Cursor → ParserState → Answer Parsed) (line : Option Cursor) (s : ParserState)
    (ltry : Option Cursor) (t : ParserState) (r : Parsed) : Prop where
  pointer : ltry = line
  lines : SameLines s t
  same : ∃ r', run line (withLinesOf s t) = .gives r' ∧ SameParse r r'

/-- At the start of `Or` each of the alternatives fails without taking text and without asking for a line. -/
def OrStays (parse : Parser) (line : Option Cursor) : List YCPValue → ParserState → Prop
  | [], _ => True
  | e :: elements, s =>
    ∃ r, parse line e false s = .gives r ∧ r.line = line ∧ r.state.nextLine = s.nextLine ∧
      OrStays parse line elements r.state

/-- At the start of `Choice` each of them fails without asking for a line. -/
def ChoiceStays (parse : Parser) (line : Option Cursor) : List YCPValue → ParserState → Prop
  | [], _ => True
  | element :: elements, s =>
    ∃ a r, alternative element = some a ∧ parse line a.1 false s = .gives r ∧ r.state.nextLine = s.nextLine ∧
      ChoiceStays parse line elements { r.state with currentMatch := r.value }

/-- `Or` comes to the alternative behind `before`, and that one does not fail. -/
structure OrTakes (parse : Parser) (line : Option Cursor) (s : ParserState) (optional : Bool)
    (before : List YCPValue) (e : YCPValue) (after : List YCPValue) (ltry : Option Cursor) (t : ParserState)
    (r : Parsed) : Prop where
  reaches : OrReaches parse before line s ltry t
  run : parse ltry e (after.isEmpty && optional) t = .gives r
  succeeds : r.value.isNull = false

/-- `Choice` comes to the alternative behind `before`, and its match and its action do not fail. -/
structure ChoiceTakes (parse : Parser) (line : Option Cursor) (s : ParserState) (optional : Bool)
    (before : List YCPValue) (a : YCPValue × YCPValue) (t : ParserState) (r : Parsed) : Prop where
  reaches : ChoiceReaches parse line before s t
  run : runChoice parse a line optional t = .gives r
  succeeds : r.value.isNull = false

section

variable {parse : Parser} {line ltry : Option Cursor} {s t : ParserState} {alldata : List Text}
  {elements : List YCPValue}

/-! ### What the two give -/

lemma orTakes_gives {optional : Bool} {before after : List YCPValue} {e : YCPValue} {r : Parsed}
    (h : OrTakes parse line s optional before e after ltry t r) (back : Option Cursor) :
    parseOr parse back optional (before ++ e :: after) line s = .gives r := by
  obtain ⟨hreaches, hrun, hsucceeds⟩ := h
  induction hreaches with
  | here ltry s => rw [List.nil_append, parseOr, hrun, gives_bind, hsucceeds, if_neg Bool.false_ne_true, pure_eq]
  | failed run null more ih =>
    have hlast : ∀ l : List YCPValue, (l ++ e :: after).isEmpty = false := by simp
    rw [List.cons_append, parseOr, hlast, Bool.false_and, run, gives_bind, if_pos null]
    exact ih hrun

/-- `Or` gives what an alternative gives, or nil. -/
lemma parseOr_cases {optional : Bool} {r : Parsed} {back : Option Cursor}
    (h : parseOr parse back optional elements line s = .gives r) :
    (∃ before e after ltry t, elements = before ++ e :: after ∧
      OrTakes parse line s optional before e after ltry t r) ∨ r.value = void ∧ r.line = back := by
  induction elements generalizing line s with
  | nil =>
    cases h
    exact .inr ⟨rfl, rfl⟩
  | cons e elements ih =>
    rw [parseOr] at h
    obtain ⟨first, hfirst, h⟩ := bind_gives_iff.mp h
    cases hnull : first.value.isNull with
    | false =>
      rw [if_neg (Bool.eq_false_iff.mp hnull)] at h
      cases h
      exact .inl ⟨[], e, elements, line, s, rfl, .here _ _, hfirst, hnull⟩
    | true =>
      rw [if_pos hnull] at h
      cases elements with
      | nil =>
        cases h
        exact .inr ⟨rfl, rfl⟩
      | cons e' elements =>
        obtain ⟨before, last, after, ltry, t, heq, htakes⟩ | hvoid := ih h
        · refine .inl ⟨e :: before, last, after, ltry, t, by rw [heq]; rfl, ?_⟩
          exact ⟨.failed hfirst hnull htakes.reaches, htakes.run, htakes.succeeds⟩
        · exact .inr hvoid

lemma choiceTakes_gives {optional : Bool} {before after : List YCPValue} {element : YCPValue}
    {a : YCPValue × YCPValue} {r : Parsed} (helement : alternative element = some a)
    (h : ChoiceTakes parse line s optional before a t r) :
    parseChoice parse line optional (before ++ element :: after) s = .gives r := by
  obtain ⟨hreaches, hrun, hsucceeds⟩ := h
  induction hreaches with
  | here s =>
    rw [List.nil_append, parseChoice, helement]
    obtain ⟨first, hfirst, hrest⟩ := bind_gives_iff.mp hrun
    dsimp only
    rw [hfirst, gives_bind]
    cases hnull : first.value.isNull with
    | true =>
      rw [hnull, Bool.true_or, if_pos rfl] at hrest
      cases hrest
      rw [hnull] at hsucceeds
      cases hsucceeds
    | false =>
      rw [hnull, Bool.false_or] at hrest
      exact hrest
  | failed halternative run null more ih =>
    rw [List.cons_append, parseChoice, halternative]
    dsimp only
    rw [run, gives_bind, if_pos null]
    exact ih hrun

/-- `Choice` gives what an alternative gives, or null. -/
lemma parseChoice_cases {optional : Bool} {r : Parsed} (h : parseChoice parse line optional elements s = .gives r)
    (hsucceeds : r.value.isNull = false) :
    ∃ before element a after t, elements = before ++ element :: after ∧ alternative element = some a ∧
      ChoiceTakes parse line s optional before a t r := by
  induction elements generalizing s with
  | nil =>
    cases h
    cases hsucceeds
  | cons element elements ih =>
    rw [parseChoice] at h
    cases helement : alternative element with
    | none =>
      rw [helement] at h
      cases h
      cases hsucceeds
    | some a =>
      rw [helement] at h
      obtain ⟨first, hfirst, hrest⟩ := bind_gives_iff.mp h
      cases hnull : first.value.isNull with
      | true =>
        rw [if_pos hnull] at hrest
        obtain ⟨before, last, b, after, t, heq, hlast, htakes⟩ := ih hrest
        refine ⟨element :: before, last, b, after, t, by rw [heq]; rfl, hlast, ?_, htakes.run, hsucceeds⟩
        exact .failed helement hfirst hnull htakes.reaches
      | false =>
        refine ⟨[], element, a, elements, s, rfl, helement, .here s, ?_, hsucceeds⟩
        rw [runChoice, hfirst, gives_bind, hnull, Bool.false_or]
        rw [if_neg (Bool.eq_false_iff.mp hnull)] at hrest
        exact hrest

/-! ### Failing in place -/

lemma Onward.antisymm (h : Onward line ltry) (h' : Onward ltry line) : ltry = line := by
  cases line with
  | none =>
    cases ltry with
    | none => rfl
    | some _ => cases h
  | some c =>
    cases ltry with
    | none => cases h
    | some c' =>
      have htext : c'.text = c.text := h.2.eq_of_length (Nat.le_antisymm h.2.length_le h'.2.length_le)
      have hline := h.1
      cases c
      cases c'
      subst hline htext
      rfl

lemma withLinesOf_eq (h : SameLines s t) : withLinesOf s t = t := by
  rw [withLinesOf, ← h.1, ← h.2]

variable (h : Advances alldata parse)
include h

lemma OrReaches.ahead (hreaches : OrReaches parse elements line s ltry t) : Ahead alldata line s ltry t := by
  induction hreaches with
  | here ltry s => exact Ahead.refl _ _
  | failed run null more ih => exact (h _ _ _ _ _ run).trans ih

lemma ChoiceReaches.counts (hreaches : ChoiceReaches parse line elements s t) : s.nextLine ≤ t.nextLine := by
  induction hreaches with
  | here s => exact Nat.le_refl _
  | failed alternative run null more ih => exact (h _ _ _ _ _ run).counts.trans ih

/-- The pointer and the lines never go back: if they are as at the start in the end, they have been so all the
time. -/
lemma OrReaches.stays (hreaches : OrReaches parse elements line s ltry t) (hline : ltry = line)
    (hnext : t.nextLine = s.nextLine) : OrStays parse line elements s := by
  induction hreaches with
  | here ltry s => trivial
  | @failed e elements ltry line s t r run null more ih =>
    have hfirst := h _ _ _ _ _ run
    have hrest := more.ahead h
    have hcounts := hfirst.counts
    have hcounts' := hrest.counts
    have hnext' : r.state.nextLine = s.nextLine := by omega
    have hback : Onward r.line ltry := hline ▸ (hrest.stays (by omega)).2
    have hline' : r.line = ltry := (hfirst.stays hnext').2.antisymm hback
    refine ⟨r, run, hline', hnext', ?_⟩
    rw [← hline']
    exact ih (hline.trans hline'.symm) (by omega)

lemma OrReaches.of_stays (hreaches : OrReaches parse elements line s ltry t)
    (hstays : OrStays parse line elements s) : ltry = line ∧ SameLines s t := by
  induction hreaches with
  | here ltry s => exact ⟨rfl, rfl, rfl⟩
  | @failed e elements ltry line s t r run null more ih =>
    obtain ⟨r', hr', hline, hnext, hmore⟩ := hstays
    cases run.symm.trans hr'
    have hgot := ((h _ _ _ _ _ run).stays hnext).1
    rw [← hline] at hmore
    obtain ⟨hline', hnext', hgot'⟩ := ih hmore
    exact ⟨hline'.trans hline, hnext'.trans hnext, hgot'.trans hgot⟩

lemma ChoiceReaches.stays (hreaches : ChoiceReaches parse line elements s t) (hnext : t.nextLine = s.nextLine) :
    ChoiceStays parse line elements s := by
  induction hreaches with
  | here s => trivial
  | @failed element a elements s t r halternative run null more ih =>
    have hcounts := (h _ _ _ _ _ run).counts
    have hcounts' := more.counts h
    dsimp only at hcounts'
    exact ⟨a, r, halternative, run, by omega, ih (by dsimp only; omega)⟩

lemma ChoiceReaches.of_stays (hreaches : ChoiceReaches parse line elements s t)
    (hstays : ChoiceStays parse line elements s) : SameLines s t := by
  induction hreaches with
  | here s => exact ⟨rfl, rfl⟩
  | @failed element a elements s t r halternative run null more ih =>
    obtain ⟨a', r', halternative', hr', hnext, hmore⟩ := hstays
    cases halternative.symm.trans halternative'
    cases run.symm.trans hr'
    have hgot := ((h _ _ _ _ _ run).stays hnext).1
    obtain ⟨hnext', hgot'⟩ := ih hmore
    exact ⟨hnext'.trans hnext, hgot'.trans hgot⟩

/-- The alternative that `Or` takes is independent of those before it if and only if these fail in place. -/
lemma orIndependent_iff {optional : Bool} {before after : List YCPValue} {e : YCPValue} {r : Parsed}
    (htakes : OrTakes parse line s optional before e after ltry t r) :
    Independent (fun line s => parse line e (after.isEmpty && optional) s) line s ltry t r ↔
      OrStays parse line before s := by
  constructor
  · rintro ⟨hline, ⟨hnext, -⟩, -⟩
    exact htakes.reaches.stays h hline hnext
  · intro hstays
    obtain ⟨hline, hlines⟩ := htakes.reaches.of_stays h hstays
    refine ⟨hline, hlines, r, ?_, rfl, rfl, rfl⟩
    rw [withLinesOf_eq hlines, ← hline]
    exact htakes.run

lemma choiceIndependent_iff {optional : Bool} {before : List YCPValue} {a : YCPValue × YCPValue} {r : Parsed}
    (htakes : ChoiceTakes parse line s optional before a t r) :
    Independent (fun line s => runChoice parse a line optional s) line s line t r ↔
      ChoiceStays parse line before s := by
  constructor
  · rintro ⟨-, ⟨hnext, -⟩, -⟩
    exact htakes.reaches.stays h hnext
  · intro hstays
    have hlines := htakes.reaches.of_stays h hstays
    refine ⟨rfl, hlines, r, ?_, rfl, rfl, rfl⟩
    rw [withLinesOf_eq hlines]
    exact htakes.run

end

/-! ### The two constructs -/

section

variable {d : Description} {alldata : List Text} {n : ℕ} {line : Option Cursor} {c : Cursor} {s s₀ : ParserState}
  {optional : Bool} {elements : List YCPValue}

lemma construct_or (d : Description) (inTuple : Bool) (hne : elements ≠ []) :
    d.construct inTuple (term (ascii "Or") elements) = .or elements := by
  have hlen : 0 < elements.length := List.length_pos_iff.mpr hne
  simp [Description.construct, Description.termConstruct, ascii, hlen]

lemma construct_choice (d : Description) (inTuple : Bool) (hne : elements ≠ []) :
    d.construct inTuple (term (ascii "Choice") elements) = .choice elements := by
  have hlen : 0 < elements.length := List.length_pos_iff.mpr hne
  simp [Description.construct, Description.termConstruct, ascii, hlen]

lemma parseData_or (hhead : d.nextText alldata line s = (some c, s₀)) (hne : elements ≠ []) :
    d.parseData alldata (n + 1) line (term (ascii "Or") elements) optional s =
      parseOr (d.parseData alldata n) (some c) optional elements (some c) s₀ := by
  rw [Description.parseData, hhead]
  dsimp only
  rw [construct_or d _ hne, Description.parseConstruct]

lemma parseData_choice (hhead : d.nextText alldata line s = (some c, s₀)) (hne : elements ≠ []) :
    d.parseData alldata (n + 1) line (term (ascii "Choice") elements) optional s =
      parseChoice (d.parseData alldata n) (some c) optional elements s₀ := by
  rw [Description.parseData, hhead]
  dsimp only
  rw [construct_choice d _ hne, Description.parseConstruct]

end

end YastCore.AnyAgent
