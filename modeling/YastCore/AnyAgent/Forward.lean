import YastCore.AnyAgent.Parse
import Mathlib.Algebra.BigOperators.Group.List.Basic

/-!
# Parsing goes forward

What no parser does: go back to a line before the one it has gotten last, make more text of what is left, or
leave another number of open tuples. Where it gets no new line, it stays in the line it was in.
-/

namespace YastCore.AnyAgent

open Bounded Lines Transport YCPValue

/-- The text of the lines that `getLine` has not come to, with their ends. -/
def linesLeft (alldata : List Text) (s : ParserState) : ℕ :=
  ((alldata.drop s.nextLine).map fun line => line.length + 1).sum

/-- The text that is left. -/
def unread (alldata : List Text) (line : Option Cursor) (s : ParserState) : ℕ :=
  (line.map fun c => c.text.length).getD 0 + linesLeft alldata s

/-- From one pointer to another further on in the same line. -/
def Onward : Option Cursor → Option Cursor → Prop
  | some c, some c' => c'.line = c.line ∧ c'.text <:+ c.text
  | none, none => True
  | _, _ => False

/-- How a parser leaves the pointer and the state that it found. -/
structure Ahead (alldata : List Text) (line : Option Cursor) (s : ParserState) (line' : Option Cursor)
    (s' : ParserState) : Prop where
  counts : s.nextLine ≤ s'.nextLine
  stays : s'.nextLine = s.nextLine → s'.got_anything = s.got_anything ∧ Onward line line'
  shrinks : unread alldata line' s' ≤ unread alldata line s
  frames : s'.tuples.length = s.tuples.length

section

variable {alldata : List Text} {line line' line'' : Option Cursor} {s s' s'' t : ParserState}

lemma Onward.refl (line : Option Cursor) : Onward line line := by
  cases line with
  | none => trivial
  | some c => exact ⟨rfl, List.suffix_refl _⟩

lemma Onward.trans (h : Onward line line') (h' : Onward line' line'') : Onward line line'' := by
  cases line with
  | none =>
    cases line' with
    | none => exact h'
    | some c' => cases h
  | some c =>
    cases line' with
    | none => cases h
    | some c' =>
      cases line'' with
      | none => cases h'
      | some c'' => exact ⟨h'.1.trans h.1, h'.2.trans h.2⟩

lemma Ahead.refl (line : Option Cursor) (s : ParserState) : Ahead alldata line s line s :=
  ⟨Nat.le_refl _, fun _ => ⟨rfl, Onward.refl line⟩, Nat.le_refl _, rfl⟩

lemma Ahead.trans (h : Ahead alldata line s line' s') (h' : Ahead alldata line' s' line'' s'') :
    Ahead alldata line s line'' s'' := by
  refine ⟨h.counts.trans h'.counts, fun heq => ?_, h'.shrinks.trans h.shrinks, h'.frames.trans h.frames⟩
  have hle := h.counts
  have hle' := h'.counts
  obtain ⟨hgot, honward⟩ := h.stays (by omega)
  obtain ⟨hgot', honward'⟩ := h'.stays (by omega)
  exact ⟨hgot'.trans hgot, honward.trans honward'⟩

lemma linesLeft_le (h : s.nextLine ≤ s'.nextLine) : linesLeft alldata s' ≤ linesLeft alldata s := by
  have hsuffix : alldata.drop s'.nextLine <:+ alldata.drop s.nextLine := by
    rw [← Nat.add_sub_cancel' h, ← List.drop_drop]
    exact List.drop_suffix _ _
  obtain ⟨before, hbefore⟩ := hsuffix
  rw [linesLeft, linesLeft, ← hbefore, List.map_append, List.sum_append]
  omega

/-- Where the pointer is put back, the lines stay gotten. -/
lemma Ahead.back (h : Ahead alldata line s line' s') : Ahead alldata line s line s' := by
  refine ⟨h.counts, fun heq => ⟨(h.stays heq).1, Onward.refl line⟩, ?_, h.frames⟩
  have hle : linesLeft alldata s' ≤ linesLeft alldata s := linesLeft_le h.counts
  rw [unread, unread]
  omega

/-- The rest of the state is of no account. -/
lemma Ahead.of_state (h : Ahead alldata line s line' s') (hline : t.nextLine = s'.nextLine)
    (hgot : t.got_anything = s'.got_anything) (hframes : t.tuples.length = s'.tuples.length) :
    Ahead alldata line s line' t := by
  have hunread : unread alldata line' t = unread alldata line' s' := by rw [unread, unread, linesLeft, linesLeft, hline]
  refine ⟨hline ▸ h.counts, fun heq => ?_, hunread ▸ h.shrinks, hframes.trans h.frames⟩
  rw [hgot]
  exact h.stays (hline.symm.trans heq)

/-! ### Setting names and values -/

@[simp] lemma setName_nextLine (s : ParserState) (name : Text) : (s.setName name).nextLine = s.nextLine := by
  unfold ParserState.setName
  split
  · rfl
  · rfl

@[simp] lemma setName_got_anything (s : ParserState) (name : Text) :
    (s.setName name).got_anything = s.got_anything := by
  unfold ParserState.setName
  split
  · rfl
  · rfl

@[simp] lemma setName_length (s : ParserState) (name : Text) : (s.setName name).tuples.length = s.tuples.length := by
  unfold ParserState.setName
  split
  · rfl
  next h => simp [h]

@[simp] lemma setValue_nextLine (s : ParserState) (value : YCPValue) :
    (s.setValue value).nextLine = s.nextLine := by
  unfold ParserState.setValue
  split
  · rfl
  · rfl

@[simp] lemma setValue_got_anything (s : ParserState) (value : YCPValue) :
    (s.setValue value).got_anything = s.got_anything := by
  unfold ParserState.setValue
  split
  · rfl
  · rfl

@[simp] lemma setValue_length (s : ParserState) (value : YCPValue) :
    (s.setValue value).tuples.length = s.tuples.length := by
  unfold ParserState.setValue
  split
  · rfl
  next h => simp [h]

lemma Ahead.setName (h : Ahead alldata line s line' s') (name : Text) :
    Ahead alldata line s line' (s'.setName name) := h.of_state (by simp) (by simp) (by simp)

lemma Ahead.setValue (h : Ahead alldata line s line' s') (value : YCPValue) :
    Ahead alldata line s line' (s'.setValue value) := h.of_state (by simp) (by simp) (by simp)

lemma takeEntry_state (entries : List (YCPValue × YCPValue)) (s : ParserState) :
    (takeEntry entries s).2.nextLine = s.nextLine ∧ (takeEntry entries s).2.got_anything = s.got_anything ∧
      (takeEntry entries s).2.tuples.length = s.tuples.length ∧
      (takeEntry entries s).2.tupleContinue = s.tupleContinue := by
  unfold takeEntry
  split
  next name value tuples h =>
    split
    · exact ⟨rfl, rfl, by simp [h], rfl⟩
    · exact ⟨rfl, rfl, rfl, rfl⟩
  · exact ⟨rfl, rfl, rfl, rfl⟩

lemma Ahead.takeEntry (h : Ahead alldata line s line' s') (entries : List (YCPValue × YCPValue)) :
    Ahead alldata line s line' (takeEntry entries s').2 := by
  obtain ⟨hline, hgot, hframes, -⟩ := takeEntry_state entries s'
  exact h.of_state hline hgot hframes

end

/-! ### Getting lines -/

section

variable {d : Description} {alldata : List Text} {line : Option Cursor} {s : ParserState}

/-- How `getLine` ends: with a line of the file, with the empty text, or with 0. -/
inductive GetsLine (alldata : List Text) (s : ParserState) : Option Cursor → ParserState → Prop where
  | line {c : Cursor} {s' : ParserState} (later : s.nextLine < s'.nextLine)
      (less : unread alldata (some c) s' < linesLeft alldata s) (tuples : s'.tuples = s.tuples)
      (got : s'.got_anything = true) : GetsLine alldata s (some c) s'
  | empty {c : Cursor} {s' : ParserState} (later : s.nextLine < s'.nextLine) (atEnd : c.text = [])
      (nothing : linesLeft alldata s' = 0) (tuples : s'.tuples = s.tuples) (before : s.got_anything = false)
      (got : s'.got_anything = true) : GetsLine alldata s (some c) s'
  | ended {s' : ParserState} (later : s.nextLine < s'.nextLine) (nothing : linesLeft alldata s' = 0)
      (tuples : s'.tuples = s.tuples) (got : s'.got_anything = false) : GetsLine alldata s none s'

lemma GetsLine.of_next {s₁ s' : ParserState} (h : GetsLine alldata s₁ line s') (hline : s₁.nextLine = s.nextLine + 1)
    (hgot : s₁.got_anything = s.got_anything) (htuples : s₁.tuples = s.tuples) : GetsLine alldata s line s' := by
  have hle : linesLeft alldata s₁ ≤ linesLeft alldata s := linesLeft_le (by omega)
  cases h with
  | line later less tuples got => exact .line (by omega) (by omega) (tuples.trans htuples) got
  | empty later atEnd nothing tuples before got =>
    exact .empty (by omega) atEnd nothing (tuples.trans htuples) (hgot.symm.trans before) got
  | ended later nothing tuples got => exact .ended (by omega) nothing (tuples.trans htuples) got

lemma length_cut_le (t : Text) : (cut t).length ≤ t.length := (List.takeWhile_prefix _).length_le

lemma linesLeft_of_drop {lines : List Text} (h : alldata.drop s.nextLine = lines) :
    linesLeft alldata s = (lines.map fun line => line.length + 1).sum := by
  rw [linesLeft, h]

lemma getLineFrom_spec (lines : List Text) (h : alldata.drop s.nextLine = lines) :
    GetsLine alldata s (d.getLineFrom lines s).1 (d.getLineFrom lines s).2 := by
  induction lines generalizing s with
  | nil =>
    have hleft : linesLeft alldata { s with nextLine := s.nextLine + 1 } = 0 := by
      have hdrop : alldata.drop (s.nextLine + 1) = [] := by rw [← List.tail_drop, h, List.tail_nil]
      rw [linesLeft]
      simp [hdrop]
    rw [Description.getLineFrom]
    by_cases hgot : s.got_anything = true
    · rw [if_pos hgot]
      exact .ended (Nat.lt_succ_self _) hleft rfl rfl
    · rw [if_neg hgot]
      exact .empty (Nat.lt_succ_self _) rfl hleft rfl (Bool.not_eq_true _ ▸ hgot) rfl
  | cons line lines ih =>
    have hdrop : alldata.drop (s.nextLine + 1) = lines := by rw [← List.tail_drop, h, List.tail_cons]
    have hleft := linesLeft_of_drop h
    rw [List.map_cons, List.sum_cons] at hleft
    rw [Description.getLineFrom]
    split
    · exact (ih hdrop).of_next rfl rfl rfl
    · have hcut := length_cut_le line
      refine .line (Nat.lt_succ_self _) ?_ rfl rfl
      rw [unread, linesLeft, hleft]
      simp only [hdrop, Option.map_some, Option.getD_some]
      omega

/-- `getLine` goes on to a later line. -/
lemma getLine_spec (d : Description) (alldata : List Text) (s : ParserState) :
    GetsLine alldata s (d.getLine alldata s).1 (d.getLine alldata s).2 := getLineFrom_spec _ rfl

lemma GetsLine.ahead {line' : Option Cursor} {s' : ParserState} (h : GetsLine alldata s line' s')
    (line : Option Cursor) : Ahead alldata line s line' s' := by
  have hle : linesLeft alldata s ≤ unread alldata line s := Nat.le_add_left _ _
  cases h with
  | line later less tuples got =>
    exact ⟨later.le, fun heq => absurd heq later.ne', less.le.trans hle, by rw [tuples]⟩
  | empty later atEnd nothing tuples before got =>
    refine ⟨later.le, fun heq => absurd heq later.ne', ?_, by rw [tuples]⟩
    rw [unread, nothing, Option.map_some, Option.getD_some, atEnd]
    exact Nat.zero_le _
  | ended later nothing tuples got =>
    refine ⟨later.le, fun heq => absurd heq later.ne', ?_, by rw [tuples]⟩
    rw [unread, nothing]
    exact Nat.zero_le _

lemma getLine_ahead (d : Description) (alldata : List Text) (line : Option Cursor) (s : ParserState) :
    Ahead alldata line s (d.getLine alldata s).1 (d.getLine alldata s).2 := (getLine_spec d alldata s).ahead line

lemma nextText_ahead (d : Description) (alldata : List Text) (line : Option Cursor) (s : ParserState) :
    Ahead alldata line s (d.nextText alldata line s).1 (d.nextText alldata line s).2 := by
  unfold Description.nextText
  split
  · exact Ahead.refl _ _
  · exact getLine_ahead d alldata line s

end

/-! ### The parsers -/

/-- Whatever this parser gives is ahead of where it started. -/
def Advances (alldata : List Text) (parse : Parser) : Prop :=
  ∀ line e optional s, Leads (fun r => Ahead alldata line s r.line r.state) (parse line e optional s)

section

variable {alldata : List Text} {parse : Parser} (h : Advances alldata parse)
include h

/-- What follows on a part starts where the part ended. -/
lemma Advances.bind {line : Option Cursor} {e : YCPValue} {optional : Bool} {s : ParserState} {start : Option Cursor}
    {before : ParserState} {f : Parsed → Answer Parsed} (hstart : Ahead alldata start before line s)
    (hf : ∀ r, Ahead alldata start before r.line r.state →
      Leads (fun r => Ahead alldata start before r.line r.state) (f r)) :
    Leads (fun r => Ahead alldata start before r.line r.state) (parse line e optional s >>= f) :=
  ((h line e optional s).mono fun _ hr => hstart.trans hr).bind hf

lemma parseChoice_ahead (line : Option Cursor) (optional : Bool) (elements : List YCPValue) (s : ParserState) :
    Leads (fun r => Ahead alldata line s r.line r.state) (parseChoice parse line optional elements s) := by
  induction elements generalizing s with
  | nil => exact leads_gives (Ahead.refl _ _)
  | cons element rest ih =>
    rw [parseChoice]
    cases alternative element with
    | none => exact leads_gives (Ahead.refl _ _)
    | some a =>
      refine h.bind (Ahead.refl _ _) fun r hr => ?_
      have hmatch : Ahead alldata line s r.line { r.state with currentMatch := r.value } := hr.of_state rfl rfl rfl
      split
      · exact (ih _).mono fun _ hmore => hmatch.back.trans hmore
      split
      · exact leads_gives hmatch
      · exact (h _ _ _ _).mono fun _ hmore => hmatch.trans hmore

lemma parseEach_ahead (optional : Bool) (elements : List YCPValue) (last : Parsed) :
    Leads (fun r => Ahead alldata last.line last.state r.line r.state) (parseEach parse optional elements last) := by
  induction elements generalizing last with
  | nil => exact leads_gives (Ahead.refl _ _)
  | cons e elements ih =>
    rw [parseEach]
    refine h.bind (Ahead.refl _ _) fun r hr => ?_
    split
    · exact leads_gives hr
    · exact (ih r).mono fun _ hmore => hr.trans hmore

lemma parseSequence_ahead (lstart : Cursor) (elements : List YCPValue) (optional : Bool) (s : ParserState) :
    Leads (fun r => Ahead alldata (some lstart) s r.line r.state)
      (parseSequence parse lstart elements optional s) := by
  refine (parseEach_ahead h optional elements ⟨null, some lstart, s⟩).bind fun r hr => ?_
  split
  · exact leads_gives hr
  split
  · exact leads_gives hr
  · exact leads_undefined

lemma parseOr_ahead (line : Option Cursor) (optional : Bool) (elements : List YCPValue) {ltry : Option Cursor}
    {start s : ParserState} (hstart : Ahead alldata line start ltry s) :
    Leads (fun r => Ahead alldata line start r.line r.state) (parseOr parse line optional elements ltry s) := by
  induction elements generalizing ltry s with
  | nil => exact leads_gives hstart.back
  | cons e elements ih =>
    rw [parseOr]
    refine h.bind hstart fun r hr => ?_
    split
    · exact ih hr
    · exact leads_gives hr

lemma parseList_ahead (e separator : YCPValue) (n : ℕ) (line : Option Cursor) (optional : Bool)
    (elements : List YCPValue) (s : ParserState) :
    Leads (fun r => Ahead alldata line s r.line r.state) (parseList parse e separator n line optional elements s) := by
  induction n generalizing line optional elements s with
  | zero => exact leads_pending
  | succ n ih =>
    rw [parseList]
    refine h.bind (Ahead.refl _ _) fun vl hvl => ?_
    split
    · exact leads_gives hvl
    · refine h.bind hvl fun vs hvs => ?_
      split
      · exact leads_gives hvs
      · exact (ih _ _ _ _).mono fun _ hmore => hvs.trans hmore

lemma parseTuple_ahead (elements : List YCPValue) (n : ℕ) (line : Option Cursor) (rest : List YCPValue)
    (optional : Bool) (entries : List (YCPValue × YCPValue)) (s : ParserState) :
    Leads (fun r => Ahead alldata line s r.line r.state)
      (parseTuple parse elements n line rest optional entries s) := by
  induction n generalizing line rest optional entries s with
  | zero =>
    cases rest with
    | nil => exact leads_gives (Ahead.refl _ _)
    | cons _ _ => exact leads_pending
  | succ n ih =>
    cases rest with
    | nil => exact leads_gives (Ahead.refl _ _)
    | cons e rest =>
      rw [parseTuple]
      refine h.bind (Ahead.refl _ _) fun r hr => ?_
      have hentry := hr.takeEntry entries
      split
      · exact leads_gives hr
      dsimp only
      split
      · have hrestart : Ahead alldata line s r.line { (takeEntry entries r.state).2 with tupleContinue := false } :=
          hentry.of_state rfl rfl rfl
        exact (ih _ _ _ _ _).mono fun _ hmore => hrestart.trans hmore
      · exact (ih _ _ _ _ _).mono fun _ hmore => hentry.trans hmore

end

lemma fillupLoop_ahead (d : Description) (alldata : List Text) (n : ℕ) (fillup : Text) (line : Option Cursor)
    (s : ParserState) :
    Leads (fun r => Ahead alldata line s r.line r.state) (d.fillupLoop alldata n fillup line s) := by
  induction n generalizing fillup line s with
  | zero => exact leads_pending
  | succ n ih =>
    cases line with
    | none => exact leads_gives (Ahead.refl _ _)
    | some c =>
      rw [Description.fillupLoop]
      split
      · exact (ih _ _ _).mono fun _ hmore => (getLine_ahead d alldata _ s).trans hmore
      · exact leads_gives (Ahead.refl _ _)

lemma parseConstruct_ahead {alldata : List Text} {parse : Parser} (h : Advances alldata parse) (d : Description)
    (n : ℕ) (line : Cursor) (optional : Bool) (s : ParserState) (construct : Construct) :
    Leads (fun r => Ahead alldata (some line) s r.line r.state)
      (d.parseConstruct alldata parse n line optional s construct) := by
  have hhere : Ahead alldata (some line) s (some line) s := Ahead.refl _ _
  cases construct with
  | optional e => exact h.bind hhere fun r hr => leads_gives hr
  | continues e =>
    refine h.bind hhere fun r hr => leads_gives ?_
    split
    · exact hr
    · exact hr.of_state rfl rfl rfl
  | choice elements => exact parseChoice_ahead h _ _ _ _
  | sequence elements => exact parseSequence_ahead h _ _ _ _
  | list e separator => exact parseList_ahead h _ _ _ _ _ _ _
  | tuple elements =>
    refine (parseTuple_ahead h elements n _ elements optional [] _).bind fun r hr => leads_gives ?_
    refine ⟨hr.counts, hr.stays, hr.shrinks, ?_⟩
    have hframes := hr.frames
    simp only [List.length_cons] at hframes
    simp only [List.length_tail]
    omega
  | var elements => exact (parseEach_ahead h optional elements _).bind fun r hr => leads_gives hr
  | name e =>
    refine h.bind hhere fun r hr => leads_gives ?_
    split
    · exact hr
    · exact hr.setName _
  | value e =>
    refine h.bind hhere fun r hr => leads_gives ?_
    split
    · exact hr
    · exact hr.setValue _
  | fillup =>
    exact (fillupLoop_ahead d alldata n [] _ s).bind fun r hr => leads_gives ((hr.setName _).setValue _)
  | skip => exact leads_gives hhere
  | current => exact leads_gives hhere
  | or elements => exact parseOr_ahead h _ _ _ hhere
  | basic p =>
    have hforward := p.forward line.text optional
    refine leads_gives ⟨Nat.le_refl _, fun _ => ⟨rfl, rfl, hforward⟩, ?_, rfl⟩
    have hle := hforward.length_le
    simp only [unread, Option.map_some, Option.getD_some]
    omega
  | named name e => exact h.bind (hhere.setName name) fun r hr => leads_gives (hr.setValue _)
  | unknown => exact leads_gives hhere
  | bad => exact leads_gives hhere
  | undefined => exact leads_undefined

/-- `parseData` goes forward. -/
theorem parseData_ahead (d : Description) (alldata : List Text) (n : ℕ) : Advances alldata (d.parseData alldata n) := by
  induction n with
  | zero =>
    intro line e optional s
    exact leads_pending
  | succ n ih =>
    intro line e optional s
    have hhead := nextText_ahead d alldata line s
    rw [Description.parseData]
    split
    next s' heq =>
      rw [heq] at hhead
      exact leads_gives hhead
    next line' s' heq =>
      rw [heq] at hhead
      exact (parseConstruct_ahead ih d n line' optional s' _).mono fun _ hmore => hhead.trans hmore

end YastCore.AnyAgent
