import YastCore.Ini.Scan
import YastCore.Ini.Whole

/-!
# Shell quotes

`YaST::shell_quote` and `YaST::shell_unquote`. The three loops of the latter advance one iterator, so they
are one loop here, whose state says which of them runs.
-/

namespace YastCore.Ini.Quotes

open Lines Loop

def squote : UInt8 := 39

def dquote : UInt8 := 34

def backquote : UInt8 := 96

def dollar : UInt8 := 36

/-- A character of the text between the single quotes. -/
def quoteChar (c : UInt8) : Text := if c = squote then [squote, backslash, squote, squote] else [c]

/-- `shell_quote` -/
def shellQuote (unquoted_string : Text) : Text := squote :: (unquoted_string.flatMap quoteChar ++ [squote])

/-! ### Unquoting -/

/-- The loop of `shell_unquote`, the one in it, and those of the quoted blocks. -/
inductive Where where
  | outer
  | bare
  | dquoted
  | squoted
  deriving DecidableEq, Repr

/-- The running loop, the position of the iterator, and the texts that are built. -/
structure Unquoting where
  loop : Where
  sit : Nat
  res : Text
  ret : Text

/-- The characters that a backslash quotes inside of double quotes. -/
def escapable (c : UInt8) : Bool := c == dquote || c == backslash || c == backquote || c == dollar || c == newline

/-- A pass of `parse_dquoted_string`. The exception at its end makes the result empty. -/
def parseDquotedString (s : Text) (u : Unquoting) : Pass Unquoting Text :=
  if u.sit = s.length then .returns u []
  else
    match s[u.sit]? with
    | none => .crashes
    | some c =>
      if c = dquote then .again ⟨.outer, u.sit + 1, u.res ++ u.ret, []⟩
      else if c = backslash then
        -- this `break` leaves the switch, not the loop
        if u.sit + 1 = s.length then .again u
        else
          match s[u.sit + 1]? with
          | none => .crashes
          | some d =>
            if escapable d then .again { u with sit := u.sit + 2, ret := u.ret ++ [d] }
            else .again { u with sit := u.sit + 1, ret := u.ret ++ [backslash] }
      else .again { u with sit := u.sit + 1, ret := u.ret ++ [c] }

/-- A pass of `parse_squoted_string`. -/
def parseSquotedString (s : Text) (u : Unquoting) : Pass Unquoting Text :=
  if u.sit = s.length then .returns u []
  else
    match s[u.sit]? with
    | none => .crashes
    | some c =>
      if c = squote then .again ⟨.outer, u.sit + 1, u.res ++ u.ret, []⟩
      else .again { u with sit := u.sit + 1, ret := u.ret ++ [c] }

/-- `parse_quoted_string`, as far as its loops. -/
def parseQuotedString (s : Text) (u : Unquoting) : Pass Unquoting Text :=
  match s[u.sit]? with
  | none => .crashes
  | some quote_char => .again ⟨if quote_char = dquote then .dquoted else .squoted, u.sit + 1, u.res, []⟩

/-- A pass of the inner loop of `shell_unquote`, and what follows it. -/
def parseBare (s : Text) (u : Unquoting) : Pass Unquoting Text :=
  if u.sit = s.length then .returns u u.res
  else
    match s[u.sit]? with
    | none => .crashes
    | some c =>
      if c = dquote ∨ c = squote then parseQuotedString s u
      else if c = backslash then
        if u.sit + 1 = s.length then .returns { u with sit := u.sit + 1 } u.res
        else
          match s[u.sit + 1]? with
          | none => .crashes
          | some d => .again { u with sit := u.sit + 2, res := u.res ++ [d] }
      else .again { u with sit := u.sit + 1, res := u.res ++ [c] }

/-- A pass of the loop that runs. -/
def unquotePass (s : Text) (u : Unquoting) : Pass Unquoting Text :=
  match u.loop with
  | .outer => if u.sit = s.length then .returns u u.res else .again { u with loop := .bare }
  | .bare => parseBare s u
  | .dquoted => parseDquotedString s u
  | .squoted => parseSquotedString s u

def unquoteStart : Unquoting := ⟨.outer, 0, [], []⟩

/-- `shell_unquote`; none if it has not ended after so many passes. -/
def shellUnquote (fuel : ℕ) (quoted_string : Text) : Option Text :=
  match passes (unquotePass quoted_string) fuel unquoteStart with
  | .returns _ res => some res
  | _ => none

/-! ### Quoting -/

/-- Where the reader of a quoted text is. -/
inductive Quoting where
  | bare
  | escaped
  | dquoted
  | dquotedEscaped
  | squoted
  deriving DecidableEq, Repr

namespace Quoting

def next : Quoting → UInt8 → Quoting
  | bare, c =>
    if c = dquote then dquoted else if c = squote then squoted else if c = backslash then escaped else bare
  | escaped, _ => bare
  | dquoted, c => if c = dquote then bare else if c = backslash then dquotedEscaped else dquoted
  | dquotedEscaped, _ => dquoted
  | squoted, c => if c = squote then bare else squoted

/-- What a character adds to the text. -/
def gives : Quoting → UInt8 → Text
  | bare, c => if c = dquote ∨ c = squote ∨ c = backslash then [] else [c]
  | escaped, c => [c]
  | dquoted, c => if c = dquote ∨ c = backslash then [] else [c]
  | dquotedEscaped, c => if escapable c then [c] else [backslash, c]
  | squoted, c => if c = squote then [] else [c]

/-- Where the reader is after a text. -/
def after (q : Quoting) (text : Text) : Quoting := text.foldl next q

/-- The text without its quotes. -/
def plain : Quoting → Text → Text
  | _, [] => []
  | q, c :: text => q.gives c ++ plain (q.next c) text

/-- A quote is open. -/
def isOpen : Quoting → Bool
  | bare | escaped => false
  | dquoted | dquotedEscaped | squoted => true

@[simp] lemma after_nil (q : Quoting) : q.after [] = q := rfl

@[simp] lemma after_cons (q : Quoting) (c : UInt8) (text : Text) :
    q.after (c :: text) = (q.next c).after text := rfl

lemma after_append (q : Quoting) (text text' : Text) : q.after (text ++ text') = (q.after text).after text' :=
  List.foldl_append

@[simp] lemma plain_nil (q : Quoting) : q.plain [] = [] := by
  rw [plain]

@[simp] lemma plain_cons (q : Quoting) (c : UInt8) (text : Text) :
    q.plain (c :: text) = q.gives c ++ (q.next c).plain text := by
  rw [plain]

lemma plain_append (q : Quoting) (text text' : Text) :
    q.plain (text ++ text') = q.plain text ++ (q.after text).plain text' := by
  induction text generalizing q with
  | nil => rfl
  | cons c text ih =>
    rw [List.cons_append, plain_cons, plain_cons, after_cons, ih, List.append_assoc]

@[simp] lemma next_bare_dquote : bare.next dquote = dquoted := rfl

@[simp] lemma next_bare_squote : bare.next squote = squoted := rfl

@[simp] lemma next_bare_backslash : bare.next backslash = escaped := rfl

@[simp] lemma next_escaped (c : UInt8) : escaped.next c = bare := rfl

@[simp] lemma next_dquoted_dquote : dquoted.next dquote = bare := rfl

@[simp] lemma next_dquoted_backslash : dquoted.next backslash = dquotedEscaped := rfl

@[simp] lemma next_dquotedEscaped (c : UInt8) : dquotedEscaped.next c = dquoted := rfl

@[simp] lemma next_squoted_squote : squoted.next squote = bare := rfl

@[simp] lemma gives_bare_dquote : bare.gives dquote = [] := rfl

@[simp] lemma gives_bare_squote : bare.gives squote = [] := rfl

@[simp] lemma gives_bare_backslash : bare.gives backslash = [] := rfl

@[simp] lemma gives_escaped (c : UInt8) : escaped.gives c = [c] := rfl

@[simp] lemma gives_dquoted_dquote : dquoted.gives dquote = [] := rfl

@[simp] lemma gives_dquoted_backslash : dquoted.gives backslash = [] := rfl

@[simp] lemma gives_squoted_squote : squoted.gives squote = [] := rfl

section

variable {c : UInt8}

lemma next_bare (hd : c ≠ dquote) (hq : c ≠ squote) (hb : c ≠ backslash) : bare.next c = bare := by
  rw [next, if_neg hd, if_neg hq, if_neg hb]

lemma gives_bare (hd : c ≠ dquote) (hq : c ≠ squote) (hb : c ≠ backslash) : bare.gives c = [c] :=
  if_neg fun h => h.elim hd fun h => h.elim hq hb

lemma next_dquoted (hd : c ≠ dquote) (hb : c ≠ backslash) : dquoted.next c = dquoted := by
  rw [next, if_neg hd, if_neg hb]

lemma gives_dquoted (hd : c ≠ dquote) (hb : c ≠ backslash) : dquoted.gives c = [c] :=
  if_neg fun h => h.elim hd hb

lemma gives_dquotedEscaped (he : escapable c = true) : dquotedEscaped.gives c = [c] := if_pos he

lemma gives_dquotedEscaped_kept (he : escapable c ≠ true) : dquotedEscaped.gives c = [backslash, c] := if_neg he

lemma next_squoted (hq : c ≠ squote) : squoted.next c = squoted := if_neg hq

lemma gives_squoted (hq : c ≠ squote) : squoted.gives c = [c] := if_neg hq

lemma next_eq_dquotedEscaped {q : Quoting} (h : q.next c = dquotedEscaped) : q = dquoted ∧ c = backslash := by
  cases q with
  | bare =>
    simp only [next] at h
    split_ifs at h
  | escaped => cases h
  | dquoted =>
    simp only [next] at h
    split_ifs at h with hd hb
    exact ⟨rfl, hb⟩
  | dquotedEscaped => cases h
  | squoted =>
    simp only [next] at h
    split_ifs at h

end

end Quoting

/-- The text without its quotes, empty if one is open. -/
def unquoted (s : Text) : Text := if (Quoting.after .bare s).isOpen then [] else Quoting.plain .bare s

/-- The text ends in the middle of a quoted block. -/
def Unterminated (s : Text) : Prop := (Quoting.after .bare s).isOpen = true

/-- The last character is a backslash that is itself not quoted, inside of double quotes. -/
def EndsInBackslash (s : Text) : Prop := ∃ before, s = before ++ [backslash] ∧ Quoting.after .bare before = .dquoted

/-! ### What unquoting comes to -/

section

variable {s rest : Text} {u v : Unquoting} {n : ℕ} {c d : UInt8}

lemma of_drop_eq_cons (h : s.drop n = c :: rest) :
    n < s.length ∧ s[n]? = some c ∧ s.drop (n + 1) = rest := by
  refine ⟨?_, ?_, ?_⟩
  · by_contra hge
    rw [List.drop_eq_nil_of_le (by omega)] at h
    cases h
  · have hget : (s.drop n)[0]? = s[n]? := by rw [List.getElem?_drop, Nat.add_zero]
    rw [← hget, h, List.getElem?_cons_zero]
  · rw [← List.drop_drop, h, List.drop_one, List.tail_cons]

lemma eq_length_of_drop_eq_nil (hle : n ≤ s.length) (h : s.drop n = []) : n = s.length :=
  Nat.le_antisymm hle (List.drop_eq_nil_iff.mp h)

namespace Unquoting

/-- The loop as a place of the reader. -/
def quoting (u : Unquoting) : Quoting :=
  match u.loop with
  | .outer | .bare => .bare
  | .dquoted => .dquoted
  | .squoted => .squoted

/-- What the functions have built so far. -/
def built (u : Unquoting) : Text :=
  match u.loop with
  | .outer | .bare => u.res
  | .dquoted | .squoted => u.res ++ u.ret

/-- The result where this rest is left. -/
def result (u : Unquoting) (rest : Text) : Text :=
  if (u.quoting.after rest).isOpen then [] else u.built ++ u.quoting.plain rest

/-- The loops run for ever, or return the result. -/
def Outcome (s : Text) (u : Unquoting) : Prop :=
  if u.quoting.after (s.drop u.sit) = .dquotedEscaped then ¬ Ends (unquotePass s) u
  else ∃ t, Returns (unquotePass s) u t (u.result (s.drop u.sit))

/-- What gets smaller. -/
def left (s : Text) (u : Unquoting) : ℕ := 2 * (s.length - u.sit) + if u.loop = .outer then 1 else 0

lemma outcome_of_again (hagain : unquotePass s u = .again v)
    (hafter : v.quoting.after (s.drop v.sit) = u.quoting.after (s.drop u.sit))
    (hbuilt : v.built ++ v.quoting.plain (s.drop v.sit) = u.built ++ u.quoting.plain (s.drop u.sit))
    (hv : Outcome s v) : Outcome s u := by
  unfold Outcome at hv ⊢
  rw [hafter] at hv
  rw [ends_of_again hagain]
  have hresult : v.result (s.drop v.sit) = u.result (s.drop u.sit) := by
    rw [result, result, hafter, hbuilt]
  rw [hresult] at hv
  simpa only [returns_of_again hagain] using hv

lemma outcome_of_returns {t : Unquoting}
    (hreturns : unquotePass s u = .returns t (u.result (s.drop u.sit)))
    (hafter : u.quoting.after (s.drop u.sit) ≠ .dquotedEscaped) : Outcome s u := by
  rw [Outcome, if_neg hafter]
  exact ⟨t, (returns_of_returns hreturns).mpr ⟨rfl, rfl⟩⟩

/-- In a state with less left, the outcome is known. -/
def Known (s : Text) (u : Unquoting) : Prop := ∀ v : Unquoting, left s v < left s u → v.sit ≤ s.length → Outcome s v

lemma outcome_outer (hknown : Known s u) (hloop : u.loop = .outer) (hle : u.sit ≤ s.length) : Outcome s u := by
  obtain ⟨loop, sit, res, ret⟩ := u
  obtain rfl : loop = .outer := hloop
  by_cases hend : sit = s.length
  · apply outcome_of_returns (t := ⟨.outer, sit, res, ret⟩)
    · simp [unquotePass, result, quoting, built, Quoting.isOpen, hend]
    · simp [quoting, hend]
  · apply outcome_of_again (v := ⟨.bare, sit, res, ret⟩)
    · simp only [unquotePass, if_neg hend]
    · rfl
    · rfl
    · exact hknown _ (by simp [left]) hle

section

variable {loop : Where} {sit : ℕ} {res ret : Text}

lemma Known.further (hknown : Known s ⟨loop, sit, res, ret⟩) (hloop : loop ≠ .outer) {sit' : ℕ}
    (hsit : sit < sit') (hle : sit' ≤ s.length) (loop' : Where) (res' ret' : Text) :
    Outcome s ⟨loop', sit', res', ret'⟩ := by
  refine hknown _ ?_ hle
  simp only [left, if_neg hloop]
  split <;> omega

end

lemma outcome_bare (hknown : Known s u) (hloop : u.loop = .bare) (hle : u.sit ≤ s.length) : Outcome s u := by
  obtain ⟨loop, sit, res, ret⟩ := u
  obtain rfl : loop = .bare := hloop
  simp only at hle
  have hloop : Where.bare ≠ .outer := by decide
  cases hrest : s.drop sit with
  | nil =>
    have hend := eq_length_of_drop_eq_nil hle hrest
    apply outcome_of_returns (t := ⟨.bare, sit, res, ret⟩)
    · simp [unquotePass, parseBare, result, quoting, built, Quoting.isOpen, hend]
    · simp [quoting, hrest]
  | cons c rest =>
    obtain ⟨hlt, hget, hdrop⟩ := of_drop_eq_cons hrest
    have hne : sit ≠ s.length := by omega
    by_cases hd : c = dquote
    · subst hd
      apply outcome_of_again (v := ⟨.dquoted, sit + 1, res, []⟩)
      · simp [unquotePass, parseBare, parseQuotedString, hne, hget]
      · simp [hrest, hdrop, quoting]
      · simp [hrest, hdrop, quoting, built]
      · exact hknown.further hloop (Nat.lt_succ_self sit) hlt _ _ _
    by_cases hq : c = squote
    · subst hq
      apply outcome_of_again (v := ⟨.squoted, sit + 1, res, []⟩)
      · simp [unquotePass, parseBare, parseQuotedString, hne, hget, hd]
      · simp [hrest, hdrop, quoting]
      · simp [hrest, hdrop, quoting, built]
      · exact hknown.further hloop (Nat.lt_succ_self sit) hlt _ _ _
    by_cases hb : c = backslash
    · subst hb
      cases rest with
      | nil =>
        have hend : sit + 1 = s.length := eq_length_of_drop_eq_nil hlt hdrop
        apply outcome_of_returns (t := ⟨.bare, sit + 1, res, ret⟩)
        · simp [unquotePass, parseBare, hne, hget, hd, hq, hend, hrest, result, quoting, built, Quoting.isOpen]
        · simp [quoting, hrest]
      | cons d rest =>
        obtain ⟨hlt', hget', hdrop'⟩ := of_drop_eq_cons hdrop
        have hne' : sit + 1 ≠ s.length := by omega
        apply outcome_of_again (v := ⟨.bare, sit + 2, res ++ [d], ret⟩)
        · simp [unquotePass, parseBare, hne, hget, hd, hq, hne', hget']
        · simp [hrest, hdrop', quoting]
        · simp [hrest, hdrop', quoting, built]
        · exact hknown.further hloop (by omega) hlt' _ _ _
    · apply outcome_of_again (v := ⟨.bare, sit + 1, res ++ [c], ret⟩)
      · simp [unquotePass, parseBare, hne, hget, hd, hq, hb]
      · simp [hrest, hdrop, quoting, Quoting.next_bare hd hq hb]
      · simp [hrest, hdrop, quoting, built, Quoting.next_bare hd hq hb, Quoting.gives_bare hd hq hb]
      · exact hknown.further hloop (Nat.lt_succ_self sit) hlt _ _ _

lemma outcome_squoted (hknown : Known s u) (hloop : u.loop = .squoted) (hle : u.sit ≤ s.length) : Outcome s u := by
  obtain ⟨loop, sit, res, ret⟩ := u
  obtain rfl : loop = .squoted := hloop
  simp only at hle
  have hloop : Where.squoted ≠ .outer := by decide
  cases hrest : s.drop sit with
  | nil =>
    have hend := eq_length_of_drop_eq_nil hle hrest
    apply outcome_of_returns (t := ⟨.squoted, sit, res, ret⟩)
    · simp [unquotePass, parseSquotedString, result, quoting, Quoting.isOpen, hend]
    · simp [quoting, hrest]
  | cons c rest =>
    obtain ⟨hlt, hget, hdrop⟩ := of_drop_eq_cons hrest
    have hne : sit ≠ s.length := by omega
    by_cases hq : c = squote
    · subst hq
      apply outcome_of_again (v := ⟨.outer, sit + 1, res ++ ret, []⟩)
      · simp [unquotePass, parseSquotedString, hne, hget]
      · simp [hrest, hdrop, quoting]
      · simp [hrest, hdrop, quoting, built]
      · exact hknown.further hloop (Nat.lt_succ_self sit) hlt _ _ _
    · apply outcome_of_again (v := ⟨.squoted, sit + 1, res, ret ++ [c]⟩)
      · simp [unquotePass, parseSquotedString, hne, hget, hq]
      · simp [hrest, hdrop, quoting, Quoting.next_squoted hq]
      · simp [hrest, hdrop, quoting, built, Quoting.next_squoted hq, Quoting.gives_squoted hq]
      · exact hknown.further hloop (Nat.lt_succ_self sit) hlt _ _ _

/-- The one pass that does not go on: the iterator stays at the backslash. -/
lemma not_ends_dquoted (hloop : u.loop = .dquoted) (hrest : s.drop u.sit = [backslash]) :
    ¬ Ends (unquotePass s) u := by
  obtain ⟨hlt, hget, hdrop⟩ := of_drop_eq_cons hrest
  have hne : u.sit ≠ s.length := by omega
  have hend : u.sit + 1 = s.length := eq_length_of_drop_eq_nil hlt hdrop
  apply not_ends_of_invariant (· = u)
  · rintro v rfl
    refine ⟨v, ?_, rfl⟩
    have hb : backslash ≠ dquote := by decide
    simp [unquotePass, hloop, parseDquotedString, hne, hget, hb, hend]
  · rfl

lemma outcome_dquoted (hknown : Known s u) (hloop : u.loop = .dquoted) (hle : u.sit ≤ s.length) : Outcome s u := by
  obtain ⟨loop, sit, res, ret⟩ := u
  obtain rfl : loop = .dquoted := hloop
  simp only at hle
  have hloop : Where.dquoted ≠ .outer := by decide
  cases hrest : s.drop sit with
  | nil =>
    have hend := eq_length_of_drop_eq_nil hle hrest
    apply outcome_of_returns (t := ⟨.dquoted, sit, res, ret⟩)
    · simp [unquotePass, parseDquotedString, result, quoting, Quoting.isOpen, hend]
    · simp [quoting, hrest]
  | cons c rest =>
    obtain ⟨hlt, hget, hdrop⟩ := of_drop_eq_cons hrest
    have hne : sit ≠ s.length := by omega
    by_cases hd : c = dquote
    · subst hd
      apply outcome_of_again (v := ⟨.outer, sit + 1, res ++ ret, []⟩)
      · simp [unquotePass, parseDquotedString, hne, hget]
      · simp [hrest, hdrop, quoting]
      · simp [hrest, hdrop, quoting, built]
      · exact hknown.further hloop (Nat.lt_succ_self sit) hlt _ _ _
    by_cases hb : c = backslash
    · subst hb
      cases rest with
      | nil =>
        rw [Outcome, if_pos (by simp [quoting, hrest])]
        exact not_ends_dquoted rfl hrest
      | cons d rest =>
        obtain ⟨hlt', hget', hdrop'⟩ := of_drop_eq_cons hdrop
        have hne' : sit + 1 ≠ s.length := by omega
        by_cases he : escapable d = true
        · apply outcome_of_again (v := ⟨.dquoted, sit + 2, res, ret ++ [d]⟩)
          · simp [unquotePass, parseDquotedString, hne, hget, hd, hne', hget', he]
          · simp [hrest, hdrop', quoting]
          · simp [hrest, hdrop', quoting, built, Quoting.gives_dquotedEscaped he]
          · exact hknown.further hloop (by omega) hlt' _ _ _
        · -- the backslash stays, and the next pass reads the other character
          have hplain : d ≠ dquote ∧ d ≠ backslash := by
            constructor <;> rintro rfl <;> exact he rfl
          apply outcome_of_again (v := ⟨.dquoted, sit + 1, res, ret ++ [backslash]⟩)
          · simp [unquotePass, parseDquotedString, hne, hget, hd, hne', hget', he]
          · simp [hrest, hdrop, quoting, Quoting.next_dquoted hplain.1 hplain.2]
          · simp [hrest, hdrop, quoting, built, Quoting.next_dquoted hplain.1 hplain.2,
              Quoting.gives_dquoted hplain.1 hplain.2, Quoting.gives_dquotedEscaped_kept he]
          · exact hknown.further hloop (Nat.lt_succ_self sit) hlt _ _ _
    · apply outcome_of_again (v := ⟨.dquoted, sit + 1, res, ret ++ [c]⟩)
      · simp [unquotePass, parseDquotedString, hne, hget, hd, hb]
      · simp [hrest, hdrop, quoting, Quoting.next_dquoted hd hb]
      · simp [hrest, hdrop, quoting, built, Quoting.next_dquoted hd hb, Quoting.gives_dquoted hd hb]
      · exact hknown.further hloop (Nat.lt_succ_self sit) hlt _ _ _

/-- From any state the loops come to what the reader of the rest finds. -/
lemma outcome (hle : u.sit ≤ s.length) : Outcome s u := by
  induction hm : left s u using Nat.strongRecOn generalizing u with
  | ind m ih =>
    have hknown : Known s u := fun v hless hv => ih (left s v) (hm ▸ hless) hv rfl
    cases hloop : u.loop with
    | outer => exact outcome_outer hknown hloop hle
    | bare => exact outcome_bare hknown hloop hle
    | dquoted => exact outcome_dquoted hknown hloop hle
    | squoted => exact outcome_squoted hknown hloop hle

end Unquoting

/-! ### The end of the text -/

/-- The iterator is not past the end, and nothing was read there. -/
def Within (s : Text) : Pass Unquoting Text → Prop
  | .again u => u.sit ≤ s.length
  | .returns u _ => u.sit ≤ s.length
  | .crashes => False

lemma within_quoted (hlt : u.sit < s.length) : Within s (parseQuotedString s u) := by
  rw [parseQuotedString, List.getElem?_eq_getElem hlt]
  exact hlt

lemma within_bare (hle : u.sit ≤ s.length) : Within s (parseBare s u) := by
  unfold parseBare
  by_cases hend : u.sit = s.length
  · rw [if_pos hend]
    exact hle
  have hlt : u.sit < s.length := by omega
  rw [if_neg hend, List.getElem?_eq_getElem hlt]
  dsimp only
  split
  · exact within_quoted hlt
  split
  · by_cases hlast : u.sit + 1 = s.length
    · rw [if_pos hlast]
      exact hlast.le
    · have hlt' : u.sit + 1 < s.length := by omega
      rw [if_neg hlast, List.getElem?_eq_getElem hlt']
      exact hlt'
  · exact hlt

lemma within_dquoted (hle : u.sit ≤ s.length) : Within s (parseDquotedString s u) := by
  unfold parseDquotedString
  by_cases hend : u.sit = s.length
  · rw [if_pos hend]
    exact hle
  have hlt : u.sit < s.length := by omega
  rw [if_neg hend, List.getElem?_eq_getElem hlt]
  dsimp only
  split
  · exact hlt
  split
  · by_cases hlast : u.sit + 1 = s.length
    · rw [if_pos hlast]
      exact hle
    · have hlt' : u.sit + 1 < s.length := by omega
      rw [if_neg hlast, List.getElem?_eq_getElem hlt']
      dsimp only
      split
      · exact hlt'
      · exact hlt
  · exact hlt

lemma within_squoted (hle : u.sit ≤ s.length) : Within s (parseSquotedString s u) := by
  unfold parseSquotedString
  by_cases hend : u.sit = s.length
  · rw [if_pos hend]
    exact hle
  have hlt : u.sit < s.length := by omega
  rw [if_neg hend, List.getElem?_eq_getElem hlt]
  dsimp only
  split
  · exact hlt
  · exact hlt

lemma within_pass (hle : u.sit ≤ s.length) : Within s (unquotePass s u) := by
  unfold unquotePass
  cases u.loop with
  | outer =>
    dsimp only
    split
    · exact hle
    · exact hle
  | bare => exact within_bare hle
  | dquoted => exact within_dquoted hle
  | squoted => exact within_squoted hle

lemma within_passes (n : ℕ) (hle : u.sit ≤ s.length) : Within s (passes (unquotePass s) n u) := by
  induction n generalizing u with
  | zero => exact hle
  | succ n ih =>
    have hpass := within_pass hle
    cases h : unquotePass s u with
    | again v =>
      rw [h] at hpass
      rw [passes_of_again h]
      exact ih hpass
    | returns v a =>
      rw [h] at hpass
      rw [passes_of_returns h]
      exact hpass
    | crashes =>
      rw [h] at hpass
      exact hpass.elim

/-! ### When it ends -/

lemma endsInBackslash_iff (s : Text) : EndsInBackslash s ↔ Quoting.after .bare s = .dquotedEscaped := by
  constructor
  · rintro ⟨before, rfl, hbefore⟩
    rw [Quoting.after_append, hbefore]
    rfl
  · intro hafter
    rcases List.eq_nil_or_concat s with rfl | ⟨before, c, rfl⟩
    · cases hafter
    rw [List.concat_eq_append] at hafter ⊢
    rw [Quoting.after_append] at hafter
    obtain ⟨hq, rfl⟩ := Quoting.next_eq_dquotedEscaped hafter
    exact ⟨before, rfl, hq⟩

lemma exists_shellUnquote_iff (r : Text) :
    (∃ fuel, shellUnquote fuel s = some r) ↔ ∃ t, Returns (unquotePass s) unquoteStart t r := by
  constructor
  · rintro ⟨fuel, h⟩
    unfold shellUnquote at h
    cases hp : passes (unquotePass s) fuel unquoteStart with
    | again t => simp [hp] at h
    | returns t res =>
      rw [hp] at h
      cases h
      exact ⟨t, fuel, hp⟩
    | crashes => simp [hp] at h
  · rintro ⟨t, fuel, hp⟩
    exact ⟨fuel, by rw [shellUnquote, hp]⟩

lemma outcome_start (s : Text) :
    if Quoting.after .bare s = .dquotedEscaped then ¬ Ends (unquotePass s) unquoteStart
    else ∃ t, Returns (unquotePass s) unquoteStart t (unquoted s) := by
  have hout : unquoteStart.Outcome s := Unquoting.outcome (Nat.zero_le s.length)
  exact hout

/-- The text that `shell_unquote` returns. -/
lemma shellUnquote_eq_unquoted (hs : ¬ EndsInBackslash s) : ∃ fuel, shellUnquote fuel s = some (unquoted s) := by
  rw [exists_shellUnquote_iff]
  have hout := outcome_start s
  rw [endsInBackslash_iff] at hs
  rw [if_neg hs] at hout
  exact hout

lemma shellUnquote_unique {fuel fuel' : ℕ} {r r' : Text} (h : shellUnquote fuel s = some r)
    (h' : shellUnquote fuel' s = some r') : r = r' := by
  obtain ⟨t, ht⟩ := (exists_shellUnquote_iff r).mp ⟨fuel, h⟩
  obtain ⟨t', ht'⟩ := (exists_shellUnquote_iff r').mp ⟨fuel', h'⟩
  exact (ht.unique ht').2

lemma not_shellUnquote (hs : EndsInBackslash s) (fuel : ℕ) (r : Text) : shellUnquote fuel s ≠ some r := by
  intro h
  obtain ⟨t, hreturns⟩ := (exists_shellUnquote_iff r).mp ⟨fuel, h⟩
  have hout := outcome_start s
  rw [if_pos ((endsInBackslash_iff s).mp hs)] at hout
  exact hout hreturns.ends

end

/-- `shell_unquote` ends, reads nothing behind the text, and gives the empty text for an open quote. -/
def Unquotes (s : Text) : Prop :=
  (∃ fuel r, shellUnquote fuel s = some r) ∧ (∀ n, Within s (passes (unquotePass s) n unquoteStart)) ∧
    (Unterminated s → ∃ fuel, shellUnquote fuel s = some [])

theorem unquotes_iff (s : Text) : Unquotes s ↔ ¬ EndsInBackslash s := by
  constructor
  · rintro ⟨⟨fuel, r, h⟩, -, -⟩ hs
    exact not_shellUnquote hs fuel r h
  · intro hs
    obtain ⟨fuel, h⟩ := shellUnquote_eq_unquoted hs
    refine ⟨⟨fuel, _, h⟩, fun n => within_passes n (Nat.zero_le s.length), fun hopen => ⟨fuel, ?_⟩⟩
    rw [Unterminated] at hopen
    rw [h, unquoted, if_pos hopen]

lemma eq_unquoted {fuel : ℕ} {s r : Text} (h : shellUnquote fuel s = some r) : r = unquoted s := by
  have hs : ¬ EndsInBackslash s := fun hs => not_shellUnquote hs fuel r h
  obtain ⟨fuel', h'⟩ := shellUnquote_eq_unquoted hs
  exact shellUnquote_unique h h'

/-- A double quote and a backslash. -/
theorem not_unquotes_backslash : ¬ ∀ s, Unquotes s := by
  intro hall
  obtain ⟨⟨fuel, r, h⟩, -, -⟩ := hall [dquote, backslash]
  exact not_shellUnquote ⟨[dquote], rfl, rfl⟩ fuel r h

end YastCore.Ini.Quotes
