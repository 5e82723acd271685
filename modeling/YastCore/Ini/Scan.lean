import YastCore.Ini.Tree
import YastCore.Lib.Loop

/-!
# Reading an ini file

`IniParser::scanner_get`, which joins lines that end in a backslash, and `IniParser::parse_helper`. A
regular expression is a parameter: what it matches in a line. The loops run for as many passes as they
are given.
-/

namespace YastCore.Ini

open Lines Loop

/-! ### The stream -/

/-- An `ifstream`: the bytes that are left, and the bits of its state. -/
structure Scanner where
  rest : Text
  eofbit : Bool := false
  failbit : Bool := false

/-- `std::getline`: it leaves the string alone if the stream cannot be read. -/
def Scanner.getline (scanner : Scanner) (s : Text) : Text × Scanner :=
  if scanner.eofbit || scanner.failbit then (s, { scanner with failbit := true })
  else
    let line := scanner.rest.takeWhile (· ≠ newline)
    match scanner.rest.dropWhile (· ≠ newline) with
    | _ :: rest => (line, { scanner with rest := rest })
    | [] => (line, ⟨[], true, line.isEmpty⟩)

def backslash : UInt8 := 92

/-- The stream, the line as far as it is joined, and the buffer of the last part. -/
structure Joining where
  scanner : Scanner
  s : Text
  tmp : Text

/-- A pass through the loop of `scanner_get`. -/
def joinPass (j : Joining) : Pass Joining Unit :=
  if j.s.getLast? = some backslash then
    let (tmp, scanner) := j.scanner.getline j.tmp
    .again ⟨scanner, j.s ++ newline :: tmp, tmp⟩
  else .returns j ()

/-- `IniParser::scanner_get` on a stream that can be read; none if the loop has not ended yet. -/
def scannerGet (line_can_continue : Bool) (fuel : ℕ) (scanner : Scanner) (s : Text) :
    Option (Text × Scanner) :=
  let (s, scanner) := scanner.getline s
  if line_can_continue && !s.isEmpty then
    match passes joinPass fuel ⟨scanner, s, []⟩ with
    | .returns j () => some (j.s, j.scanner)
    | _ => none
  else some (s, scanner)

/-! ### The rules -/

/-- `RegexMatch`: the subexpressions, the whole match first, and the rest of the line. -/
structure Match where
  groups : List Text
  rest : Text

abbrev Regex := Text → Option Match

structure SectionRule where
  begin_rx : Regex
  end_rx : Regex
  end_valid : Bool

structure ParamRule where
  line_rx : Regex
  begin_rx : Regex
  end_rx : Regex
  multiline_valid : Bool

structure Rules extends Options where
  line_can_continue : Bool
  no_nested_sections : Bool
  global_values : Bool
  comments_last : Bool
  join_multiline : Bool
  no_finalcomment_kill : Bool
  shell_quoted_value : Bool
  shell_unquote : Text → Text
  linecomments : List Regex
  comments : List Regex
  sections : List SectionRule
  params : List ParamRule

/-- The first rule that matches, with its number. -/
def firstMatch {α : Type} (regex : α → Option Regex) (rules : List α) (line : Text) : Option (Nat × Match) :=
  rules.zipIdx.findSome? fun r => (regex r.1).bind fun rx => (rx line).map fun m => (r.2, m)

/-! ### The lines -/

/-- The section at these iterators. -/
def sectionAt : List Nat → IniSection → Option IniSection
  | [], s => some s
  | id :: place, s =>
    match Assoc.find id s.container with
    | some (.section t) => sectionAt place t
    | _ => none

/-- The local variables of `parse_helper`. -/
structure Helper where
  ini : IniSection
  comment : Text := []
  key : Text := []
  val : Text := []
  state : Bool := false
  matched_by : Nat := 0
  open_sections : List (List Nat) := []

namespace Helper

/-- `initValue` in the innermost open section, if values may stand here. -/
def storeValue (o : Rules) (h : Helper) (key val : Text) (rb : Nat) : Option Helper :=
  let val := if o.shell_quoted_value then o.shell_unquote val else val
  let init (s : IniSection) := s.initValue o.toOptions key val h.comment (Int32.ofNat rb)
  match h.open_sections with
  | [] =>
    if !o.global_values then some { h with comment := [] }
    else (init h.ini).map fun ini => { h with ini := ini, comment := [] }
  | place :: _ => (SectionOf.atPlace init place h.ini).map fun ini => { h with ini := ini, comment := [] }

def storeEndComment (h : Helper) : Option Helper :=
  if h.comment.isEmpty then some h
  else
    let set (s : IniSection) := s.setEndComment (cut h.comment)
    match h.open_sections with
    | [] => some { h with ini := set h.ini, comment := [] }
    | place :: _ =>
      (SectionOf.atPlace (fun s => some (set s)) place h.ini).map fun ini =>
        { h with ini := ini, comment := [] }

/-- The comment that a rule finds on the line. -/
def takeComment (o : Rules) (h : Helper) (line : Text) : Helper × Text :=
  match firstMatch some o.comments line with
  | some (_, m) => ({ h with comment := h.comment ++ m.groups.headD [] ++ [newline] }, m.rest)
  | none => (h, line)

/-- A line inside of a value that was begun on an earlier line. -/
def continueValue (o : Rules) (h : Helper) (line : Text) : Option (Helper × Text) := do
  let sep := if o.join_multiline then 32 else newline
  let param ← o.params[h.matched_by]?
  match param.end_rx line with
  | some m =>
    let part ← m.groups[1]?
    let val := h.val ++ sep :: part
    let h ← storeValue o { h with state := false, val := val } h.key val h.matched_by
    some (h, m.rest)
  | none => some ({ h with val := h.val ++ sep :: line }, line)

/-- Sections that a new one closes: those without an end, and others where sections are not nested. -/
def closePrevious (o : Rules) (h : Helper) : Option Helper :=
  match h.open_sections with
  | [] => some h
  | place :: outer => do
    let cur ← sectionAt place h.ini
    let rule ← if cur.read_by < 0 then none else o.sections[cur.read_by.toNatClampNeg]?
    if rule.end_valid && !o.no_nested_sections then some h else some { h with open_sections := outer }

def beginSection (o : Rules) (h : Helper) (line : Text) : Option (Helper × Text) :=
  match firstMatch (fun r : SectionRule => some r.begin_rx) o.sections line with
  | none => some (h, line)
  | some (i, m) => do
    let found ← m.groups[1]?
    let h ← closePrevious o h
    if !h.open_sections.isEmpty && o.no_nested_sections then some ({ h with comment := [] }, m.rest)
    else
      let place := h.open_sections.headD []
      let init (s : IniSection) := s.initSection o.toOptions found h.comment (Int32.ofNat i) (-2)
      let ini ← SectionOf.atPlace init place h.ini
      let parent ← sectionAt place ini
      let new ← parent.container.getLast?
      some ({ h with ini := ini, comment := [], open_sections := (place ++ [new.1]) :: h.open_sections }, m.rest)

/-- The number of open sections that the end of a section closes. -/
def closing (h : Helper) (found : Text) (i : Nat) : Nat :=
  let byName := h.open_sections.findIdx? fun place =>
    (sectionAt place h.ini).any fun s => s.getName == found
  let byType := h.open_sections.findIdx? fun place =>
    (sectionAt place h.ini).any fun s => s.read_by == Int32.ofNat i
  match if found.isEmpty then none else byName with
  | some n => n + 1
  | none => byType.getD 0 + 1

def endSection (o : Rules) (h : Helper) (line : Text) : Option (Helper × Text) :=
  match firstMatch (fun r : SectionRule => if r.end_valid then some r.end_rx else none) o.sections line with
  | none => some (h, line)
  | some (i, m) => do
    let found := m.groups[1]?.getD []
    let h ← h.storeEndComment
    some ({ h with open_sections := h.open_sections.drop (h.closing found i) }, m.rest)

def takeValue (o : Rules) (h : Helper) (line : Text) : Option (Helper × Text) :=
  match firstMatch (fun r : ParamRule => some r.line_rx) o.params line with
  | none => some (h, line)
  | some (i, m) => do
    let key ← m.groups[1]?
    let val ← m.groups[2]?
    let h ← storeValue o h key val i
    some (h, m.rest)

def beginValue (o : Rules) (h : Helper) (line : Text) : Option (Helper × Text) :=
  match firstMatch (fun r : ParamRule => if r.multiline_valid then some r.begin_rx else none) o.params line with
  | none => some (h, line)
  | some (i, m) => do
    let key ← m.groups[1]?
    let val ← m.groups[2]?
    some ({ h with key := key, val := val, matched_by := i, state := true }, m.rest)

/-- The body of the loop of `parse_helper`: the variables and what is left of the line. -/
def parseLine (o : Rules) (h : Helper) (line : Text) : Option (Helper × Text) :=
  if (firstMatch some o.linecomments line).isSome then
    some ({ h with comment := h.comment ++ line ++ [newline] }, line)
  else do
    let (h, line) := if o.comments_last then (h, line) else takeComment o h line
    let (h, line) ← if h.state then continueValue o h line else some (h, line)
    if h.state then some (h, line)
    else
      let (h, line) ← beginSection o h line
      let (h, line) ← endSection o h line
      let (h, line) ← takeValue o h line
      let (h, line) ← beginValue o h line
      some (if o.comments_last then takeComment o h line else (h, line))

/-- The comment at the end of the file, without the empty lines behind it. -/
def finish (o : Rules) (h : Helper) : IniSection :=
  if h.comment.isEmpty then h.ini
  else
    let kept := (h.comment.reverse.dropWhile (· = newline)).reverse
    let comment := if o.no_finalcomment_kill then h.comment
      else if kept.isEmpty then [] else kept ++ [newline]
    h.ini.setEndComment (cut comment)

end Helper

/-- How the parser ends: with the tree, or by a crash. -/
inductive Parsed where
  | done (ini : IniSection)
  | crashed

/-- The loop of `IniParser::parse_helper`; none if it has not ended yet. -/
def parseHelper (o : Rules) : ℕ → Scanner → Text → Helper → Option Parsed
  | 0, _, _, _ => none
  | fuel + 1, scanner, line, h =>
    if scanner.failbit then some (.done (h.finish o))
    else
      match scannerGet o.line_can_continue fuel scanner line with
      | none => none
      | some (line, scanner) =>
        match h.parseLine o line with
        | none => some .crashed
        | some (h, line) => parseHelper o fuel scanner line h

/-- `IniParser::parse` of a file with this content into this tree. -/
def parse (o : Rules) (fuel : ℕ) (content : Text) (ini : IniSection) : Option Parsed :=
  parseHelper o fuel ⟨content, false, false⟩ [] { ini := ini }

/-! ### Lines that are joined for ever -/

/-- The last line has no newline behind it, and it and the line before it end in a backslash. -/
def Endless (t : Text) : Prop :=
  ∃ a b, t = a ++ backslash :: newline :: (b ++ [backslash]) ∧ newline ∉ b

lemma not_endless {t : Text} (h : newline ∉ t) : ¬ Endless t := by
  rintro ⟨a, b, rfl, -⟩
  exact h (by simp)

lemma endless_line (u rest : Text) :
    Endless (u ++ newline :: rest) ↔
      Endless rest ∨ u.getLast? = some backslash ∧ newline ∉ rest ∧ rest.getLast? = some backslash := by
  constructor
  · rintro ⟨a, b, heq, hb⟩
    rcases List.append_eq_append_iff.mp heq with ⟨c, rfl, hc⟩ | ⟨c, rfl, hc⟩
    · cases c with
      | nil => cases hc
      | cons d c =>
        rw [List.cons_append, List.cons.injEq] at hc
        exact .inl ⟨c, b, hc.2, hb⟩
    · cases c with
      | nil => cases hc
      | cons d c =>
        rw [List.cons_append, List.cons.injEq] at hc
        obtain ⟨rfl, hc⟩ := hc
        cases c with
        | nil =>
          rw [List.nil_append, List.cons.injEq] at hc
          obtain ⟨-, rfl⟩ := hc
          refine .inr ⟨by simp, ?_, by simp⟩
          rw [List.mem_append, not_or]
          exact ⟨hb, by decide⟩
        | cons e c =>
          rw [List.cons_append, List.cons.injEq] at hc
          have hmem : newline ∈ b ++ [backslash] := by
            rw [hc.2]
            simp
          rcases List.mem_append.mp hmem with hmem | hmem
          · exact absurd hmem hb
          · exact absurd (List.mem_singleton.mp hmem) (by decide)
  · rintro (⟨a, b, rfl, hb⟩ | ⟨hu, hrest, hlast⟩)
    · exact ⟨u ++ newline :: a, b, by simp, hb⟩
    · obtain ⟨a, rfl⟩ := List.getLast?_eq_some_iff.mp hu
      obtain ⟨b, rfl⟩ := List.getLast?_eq_some_iff.mp hlast
      refine ⟨a, b, by simp, fun hb => hrest ?_⟩
      exact List.mem_append_left _ hb

/-! ### The loop of `scanner_get` -/

section

variable {scanner : Scanner} {s line rest : Text} {lcc : Bool}

/-- The stream can be read. -/
def Scanner.Good (scanner : Scanner) : Prop := scanner.eofbit = false ∧ scanner.failbit = false

/-- What every call of `scanner_get` makes smaller. -/
def Scanner.weight (scanner : Scanner) : ℕ :=
  if scanner.failbit then 0 else if scanner.eofbit then 1 else scanner.rest.length + 2

lemma Scanner.Good.weight (h : scanner.Good) : scanner.weight = scanner.rest.length + 2 := by
  rw [Scanner.weight, h.1, h.2]
  rfl

lemma weight_of_not_good (h : ¬ scanner.Good) : scanner.weight ≤ 1 := by
  rw [Scanner.weight]
  split_ifs with hfail heof
  · exact Nat.zero_le 1
  · exact le_refl 1
  · simp only [Bool.not_eq_true] at hfail heof
    exact absurd ⟨heof, hfail⟩ h

lemma getline_line (h : scanner.Good) (hrest : scanner.rest = line ++ newline :: rest) (hline : newline ∉ line) :
    scanner.getline s = (line, ⟨rest, false, false⟩) := by
  have hne : ∀ c ∈ line, (decide (c ≠ newline)) = true := fun c hc =>
    decide_eq_true fun heq => hline (heq ▸ hc)
  have htake : (line ++ newline :: rest).takeWhile (· ≠ newline) = line := by
    rw [List.takeWhile_append_of_pos hne, List.takeWhile_cons_of_neg (by simp), List.append_nil]
  have hdrop : (line ++ newline :: rest).dropWhile (· ≠ newline) = newline :: rest := by
    rw [List.dropWhile_append_of_pos hne, List.dropWhile_cons_of_neg (by simp)]
  obtain ⟨text, eofbit, failbit⟩ := scanner
  obtain ⟨rfl, rfl⟩ := h
  subst hrest
  simp only [Scanner.getline, Bool.or_self, Bool.false_eq_true, if_false, htake, hdrop]

lemma getline_last (h : scanner.Good) (hrest : newline ∉ scanner.rest) :
    scanner.getline s = (scanner.rest, ⟨[], true, scanner.rest.isEmpty⟩) := by
  have hne : ∀ c ∈ scanner.rest, (decide (c ≠ newline)) = true := fun c hc =>
    decide_eq_true fun heq => hrest (heq ▸ hc)
  have htake : scanner.rest.takeWhile (· ≠ newline) = scanner.rest := List.takeWhile_eq_self_iff.mpr hne
  have hdrop : scanner.rest.dropWhile (· ≠ newline) = [] := List.dropWhile_eq_nil_iff.mpr hne
  simp only [Scanner.getline, h.1, h.2, Bool.or_self, Bool.false_eq_true, if_false, htake, hdrop]

lemma getline_not_good (h : ¬ scanner.Good) : scanner.getline s = (s, { scanner with failbit := true }) := by
  rw [Scanner.getline, if_pos]
  cases heof : scanner.eofbit with
  | true => rfl
  | false =>
    cases hfail : scanner.failbit with
    | true => rfl
    | false => exact absurd ⟨heof, hfail⟩ h

lemma joinPass_leaves {j : Joining} (h : j.s.getLast? ≠ some backslash) : joinPass j = .returns j () :=
  if_neg h

lemma joinPass_joins {j : Joining} (h : j.s.getLast? = some backslash) :
    joinPass j = .again ⟨(j.scanner.getline j.tmp).2, j.s ++ newline :: (j.scanner.getline j.tmp).1,
      (j.scanner.getline j.tmp).1⟩ := if_pos h

lemma getLast?_joined (s tmp : Text) :
    (s ++ newline :: tmp).getLast? = some backslash ↔ tmp.getLast? = some backslash := by
  rw [List.getLast?_append_of_ne_nil _ (List.cons_ne_nil _ _), List.getLast?_cons]
  cases tmp.getLast? with
  | none => exact iff_of_false (by decide) (by simp)
  | some c => rfl

/-- At the end of the stream the last part is joined again and again, if it ends in a backslash. -/
lemma not_ends_join {j : Joining} (hgood : ¬ j.scanner.Good) (hs : j.s.getLast? = some backslash)
    (htmp : j.tmp.getLast? = some backslash) : ¬ Ends joinPass j := by
  refine not_ends_of_invariant (fun j => ¬ j.scanner.Good ∧ j.s.getLast? = some backslash ∧
    j.tmp.getLast? = some backslash) ?_ ⟨hgood, hs, htmp⟩
  rintro j ⟨hgood, hs, htmp⟩
  refine ⟨_, joinPass_joins hs, ?_⟩
  rw [getline_not_good hgood]
  exact ⟨fun h => Bool.noConfusion h.2, (getLast?_joined _ _).mpr htmp, htmp⟩

lemma returns_join_end {j : Joining} (hgood : ¬ j.scanner.Good) (htmp : j.tmp.getLast? ≠ some backslash) :
    ∃ t, Returns joinPass j t () ∧ ¬ t.scanner.Good ∧
      (j.scanner.failbit = true → t.scanner.failbit = true) := by
  by_cases hs : j.s.getLast? = some backslash
  · have hjoins := joinPass_joins hs
    rw [getline_not_good hgood] at hjoins
    refine ⟨_, (returns_of_again hjoins).mpr ((returns_of_returns (joinPass_leaves ?_)).mpr ⟨rfl, rfl⟩), ?_,
      fun _ => rfl⟩
    · exact (getLast?_joined _ _).not.mpr htmp
    · exact fun h => Bool.noConfusion h.2
  · exact ⟨j, (returns_of_returns (joinPass_leaves hs)).mpr ⟨rfl, rfl⟩, hgood, id⟩

/-- The rest of the stream makes the loop of `scanner_get` endless, now or later. -/
def Scanner.Bad (scanner : Scanner) : Prop := scanner.Good ∧ Endless scanner.rest

/-- What the loop leaves of the stream, if it ends. -/
lemma join_spec {j : Joining} (hgood : j.scanner.Good) :
    (∃ t, Returns joinPass j t () ∧ t.scanner.weight ≤ j.scanner.weight ∧
      (t.scanner.Bad ↔ Endless (j.s ++ newline :: j.scanner.rest))) ∨
    (Endless (j.s ++ newline :: j.scanner.rest) ∧ ¬ Ends joinPass j) := by
  induction hn : j.scanner.rest.length using Nat.strongRecOn generalizing j with
  | ind n ih =>
    by_cases hs : j.s.getLast? = some backslash
    · by_cases hmem : newline ∈ j.scanner.rest
      · obtain ⟨line, rest, hrest, hline⟩ := List.eq_append_cons_of_mem hmem
        have hjoins := joinPass_joins hs
        rw [getline_line hgood hrest hline] at hjoins
        have hlength : rest.length < n := by
          rw [← hn, hrest, List.length_append, List.length_cons]
          omega
        have hendless : Endless (j.s ++ newline :: j.scanner.rest) ↔
            Endless (j.s ++ newline :: line ++ newline :: rest) := by
          rw [hrest, List.append_assoc, List.cons_append]
        rw [hendless, ends_of_again hjoins]
        simp only [returns_of_again hjoins]
        rcases ih _ hlength (j := ⟨⟨rest, false, false⟩, j.s ++ newline :: line, line⟩) ⟨rfl, rfl⟩ rfl with
          ⟨t, hreturns, hweight, hbad⟩ | hendless
        · refine .inl ⟨t, hreturns, hweight.trans ?_, hbad⟩
          rw [hgood.weight, Scanner.Good.weight ⟨rfl, rfl⟩]
          dsimp only
          omega
        · exact .inr hendless
      · have hjoins := joinPass_joins hs
        rw [getline_last hgood hmem] at hjoins
        have hclosed : ¬ (⟨[], true, j.scanner.rest.isEmpty⟩ : Scanner).Good := fun h => Bool.noConfusion h.1
        have hendless : Endless (j.s ++ newline :: j.scanner.rest) ↔
            j.scanner.rest.getLast? = some backslash := by
          rw [endless_line, or_iff_right (not_endless hmem)]
          exact ⟨fun h => h.2.2, fun h => ⟨hs, hmem, h⟩⟩
        rw [hendless, ends_of_again hjoins]
        simp only [returns_of_again hjoins]
        by_cases hlast : j.scanner.rest.getLast? = some backslash
        · exact .inr ⟨hlast, not_ends_join hclosed ((getLast?_joined _ _).mpr hlast) hlast⟩
        · obtain ⟨t, hreturns, ht, -⟩ := returns_join_end (j := ⟨_, j.s ++ newline :: j.scanner.rest, _⟩)
            hclosed hlast
          refine .inl ⟨t, hreturns, ?_, iff_of_false (fun hbad => ht hbad.1) hlast⟩
          have hweight := weight_of_not_good ht
          rw [hgood.weight]
          omega
    · refine .inl ⟨j, (returns_of_returns (joinPass_leaves hs)).mpr ⟨rfl, rfl⟩, le_refl _, ?_⟩
      rw [endless_line, Scanner.Bad, and_iff_right hgood, iff_self_or]
      exact fun h => absurd h.1 hs

lemma scannerGet_short {scanner' : Scanner} (hget : scanner.getline s = (line, scanner'))
    (h : (lcc && !line.isEmpty) = false) (fuel : ℕ) : scannerGet lcc fuel scanner s = some (line, scanner') := by
  rw [scannerGet, hget]
  dsimp only
  rw [h, if_neg Bool.false_ne_true]

lemma scannerGet_joins {scanner' : Scanner} (hget : scanner.getline s = (line, scanner'))
    (h : (lcc && !line.isEmpty) = true) (fuel : ℕ) :
    scannerGet lcc fuel scanner s =
      match passes joinPass fuel ⟨scanner', line, []⟩ with
      | .returns j () => some (j.s, j.scanner)
      | _ => none := by
  rw [scannerGet, hget]
  dsimp only
  rw [h, if_pos rfl]

lemma scannerGet_of_returns {scanner' : Scanner} {t : Joining} (hget : scanner.getline s = (line, scanner'))
    (h : (lcc && !line.isEmpty) = true) (hreturns : Returns joinPass ⟨scanner', line, []⟩ t ()) :
    ∃ fuel, scannerGet lcc fuel scanner s = some (t.s, t.scanner) := by
  obtain ⟨fuel, hfuel⟩ := hreturns
  exact ⟨fuel, by rw [scannerGet_joins hget h, hfuel]⟩

lemma scannerGet_mono {n m : ℕ} {r : Text × Scanner} (h : scannerGet lcc n scanner s = some r) (hle : n ≤ m) :
    scannerGet lcc m scanner s = some r := by
  obtain ⟨line, scanner', hget⟩ : ∃ line scanner', scanner.getline s = (line, scanner') := ⟨_, _, rfl⟩
  cases hjoin : lcc && !line.isEmpty with
  | false =>
    rw [scannerGet_short hget hjoin] at h ⊢
    exact h
  | true =>
    rw [scannerGet_joins hget hjoin] at h ⊢
    split at h
    next j hj =>
      rw [passes_mono hj hle]
      exact h
    next => cases h

lemma scannerGet_closed {scanner' : Scanner} (hget : scanner.getline s = (line, scanner'))
    (hclosed : ¬ scanner'.Good) :
    ∃ fuel t sc, scannerGet lcc fuel scanner s = some (t, sc) ∧ ¬ sc.Good ∧
      (scanner'.failbit = true → sc.failbit = true) := by
  cases hjoin : lcc && !line.isEmpty with
  | false => exact ⟨0, line, scanner', scannerGet_short hget hjoin 0, hclosed, id⟩
  | true =>
    obtain ⟨t, hreturns, ht, hfail⟩ := returns_join_end (j := ⟨scanner', line, []⟩) hclosed (by simp)
    obtain ⟨fuel, hfuel⟩ := scannerGet_of_returns hget hjoin hreturns
    exact ⟨fuel, t.s, t.scanner, hfuel, ht, hfail⟩

/-- A call of `scanner_get` that ends has read something. -/
lemma scannerGet_spec (lcc : Bool) (scanner : Scanner) (s : Text) (hfail : scanner.failbit = false) :
    (∃ fuel s' scanner', scannerGet lcc fuel scanner s = some (s', scanner') ∧
      scanner'.weight < scanner.weight ∧ (lcc = true → (scanner'.Bad ↔ scanner.Bad))) ∨
    (lcc = true ∧ scanner.Bad ∧ ∀ fuel, scannerGet lcc fuel scanner s = none) := by
  by_cases hgood : scanner.Good
  · by_cases hmem : newline ∈ scanner.rest
    · obtain ⟨line, rest, hrest, hline⟩ := List.eq_append_cons_of_mem hmem
      have hget := getline_line (s := s) hgood hrest hline
      have hweight : (⟨rest, false, false⟩ : Scanner).weight < scanner.weight := by
        rw [hgood.weight, hrest, Scanner.Good.weight ⟨rfl, rfl⟩, List.length_append, List.length_cons]
        dsimp only
        omega
      have hbad : scanner.Bad ↔ Endless (line ++ newline :: rest) := by
        rw [Scanner.Bad, and_iff_right hgood, hrest]
      cases hjoin : lcc && !line.isEmpty with
      | false =>
        refine .inl ⟨0, line, _, scannerGet_short hget hjoin 0, hweight, fun hlcc => ?_⟩
        have hempty : line = [] := by
          rw [hlcc, Bool.true_and, Bool.not_eq_false', List.isEmpty_iff] at hjoin
          exact hjoin
        rw [hbad, endless_line, hempty, Scanner.Bad]
        simp [Scanner.Good]
      | true =>
        have hlcc : lcc = true := (Bool.and_eq_true_iff.mp hjoin).1
        rcases join_spec (j := ⟨⟨rest, false, false⟩, line, []⟩) ⟨rfl, rfl⟩ with
          ⟨t, hreturns, hle, ht⟩ | ⟨hendless, hends⟩
        · obtain ⟨fuel, hfuel⟩ := scannerGet_of_returns hget hjoin hreturns
          exact .inl ⟨fuel, t.s, t.scanner, hfuel, lt_of_le_of_lt hle hweight, fun _ => ht.trans hbad.symm⟩
        · refine .inr ⟨hlcc, hbad.mpr hendless, fun fuel => ?_⟩
          obtain ⟨t, ht⟩ := again_of_not_ends hends fuel
          rw [scannerGet_joins hget hjoin, ht]
    · have hget := getline_last (s := s) hgood hmem
      have hnot : ¬ scanner.Bad := fun h => not_endless hmem h.2
      have hclosed : ¬ (⟨[], true, scanner.rest.isEmpty⟩ : Scanner).Good := fun h => Bool.noConfusion h.1
      obtain ⟨fuel, t, scanner', hfuel, hscanner', -⟩ := scannerGet_closed hget hclosed
      refine .inl ⟨fuel, t, scanner', hfuel, ?_, fun _ => iff_of_false (fun h => hscanner' h.1) hnot⟩
      have hweight := weight_of_not_good hscanner'
      rw [hgood.weight]
      omega
  · have hget := getline_not_good (s := s) hgood
    have hclosed : ¬ ({ scanner with failbit := true } : Scanner).Good := fun h => Bool.noConfusion h.2
    obtain ⟨fuel, t, scanner', hfuel, hscanner', hfailed⟩ := scannerGet_closed hget hclosed
    refine .inl ⟨fuel, t, scanner', hfuel, ?_,
      fun _ => iff_of_false (fun h => hscanner' h.1) fun h => hgood h.1⟩
    have heof : scanner.eofbit = true := by
      by_contra heof
      exact hgood ⟨by simpa using heof, hfail⟩
    rw [Scanner.weight, Scanner.weight, hfailed rfl, hfail, heof]
    simp

end

/-! ### The loop of `parse_helper` -/

section

variable {o : Rules} {scanner : Scanner} {line : Text} {h : Helper}

lemma parseHelper_mono {n m : ℕ} {r : Parsed} (hr : parseHelper o n scanner line h = some r) (hle : n ≤ m) :
    parseHelper o m scanner line h = some r := by
  induction n generalizing scanner line h m with
  | zero => cases hr
  | succ n ih =>
    cases m with
    | zero => omega
    | succ m =>
      have hle : n ≤ m := by omega
      rw [parseHelper] at hr ⊢
      split at hr
      next hfail => rw [if_pos hfail, hr]
      next hfail =>
        rw [if_neg hfail]
        split at hr
        next => cases hr
        next line' scanner' hget =>
          rw [scannerGet_mono hget hle]
          dsimp only
          cases hline : h.parseLine o line' with
          | none =>
            rw [hline] at hr
            exact hr
          | some p =>
            rw [hline] at hr
            exact ih hr hle

/-- One line, and what is left to do. -/
lemma parseHelper_step {fuel n : ℕ} {line' : Text} {scanner' : Scanner} (hfail : scanner.failbit = false)
    (hget : scannerGet o.line_can_continue fuel scanner line = some (line', scanner')) (hle : fuel ≤ n) :
    parseHelper o (n + 1) scanner line h =
      match h.parseLine o line' with
      | none => some .crashed
      | some (h, line) => parseHelper o n scanner' line h := by
  rw [parseHelper, if_neg (by simp [hfail]), scannerGet_mono hget hle]

/-- The loop ends if no call of `scanner_get` is endless. -/
lemma parseHelper_ends (hbad : ¬ (o.line_can_continue = true ∧ scanner.Bad)) :
    ∃ fuel r, parseHelper o fuel scanner line h = some r := by
  induction hn : scanner.weight using Nat.strongRecOn generalizing scanner line h with
  | ind n ih =>
    cases hfail : scanner.failbit with
    | true => exact ⟨1, .done (h.finish o), by rw [parseHelper, if_pos hfail]⟩
    | false =>
      rcases scannerGet_spec o.line_can_continue scanner line hfail with
        ⟨fuel, line', scanner', hget, hweight, hkept⟩ | ⟨hlcc, hendless, -⟩
      · cases hline : h.parseLine o line' with
        | none =>
          refine ⟨fuel + 1, .crashed, ?_⟩
          rw [parseHelper_step hfail hget (le_refl _), hline]
        | some p =>
          obtain ⟨h', line''⟩ := p
          have hbad' : ¬ (o.line_can_continue = true ∧ scanner'.Bad) := fun hb =>
            hbad ⟨hb.1, (hkept hb.1).mp hb.2⟩
          obtain ⟨fuel', r, hr⟩ := ih _ (hn ▸ hweight) hbad' (h := h') rfl
          refine ⟨max fuel fuel' + 1, r, ?_⟩
          rw [parseHelper_step hfail hget (le_max_left _ _), hline]
          exact parseHelper_mono hr (le_max_right _ _)
      · exact absurd ⟨hlcc, hendless⟩ hbad

/-- The loop is not left regularly if a call of `scanner_get` is endless. -/
lemma parseHelper_endless (hlcc : o.line_can_continue = true) (hbad : scanner.Bad) (fuel : ℕ)
    (ini : IniSection) : parseHelper o fuel scanner line h ≠ some (.done ini) := by
  induction fuel generalizing scanner line h with
  | zero => exact fun heq => by cases heq
  | succ fuel ih =>
    rw [parseHelper, if_neg (by simp [hbad.1.2])]
    rcases scannerGet_spec o.line_can_continue scanner line hbad.1.2 with
      ⟨n, line', scanner', hget, -, hkept⟩ | ⟨-, -, hnone⟩
    · cases hfuel : scannerGet o.line_can_continue fuel scanner line with
      | none => exact fun heq => by cases heq
      | some p =>
        have hp : p = (line', scanner') := by
          have h₁ := scannerGet_mono hfuel (le_max_left fuel n)
          rw [scannerGet_mono hget (le_max_right fuel n)] at h₁
          exact (Option.some.inj h₁).symm
        subst hp
        dsimp only
        cases hline : h.parseLine o line' with
        | none => exact fun heq => by cases heq
        | some q => exact ih ((hkept hlcc).mpr hbad)
    · rw [hnone fuel]
      exact fun heq => by cases heq

end

/-- The loops come to an end, also where the end is a crash. -/
def ParserEnds (o : Rules) (content : Text) (ini : IniSection) : Prop :=
  ∃ fuel, (parse o fuel content ini).isSome = true

/-- A line makes the parser look for a group of a match, or for a rule, that is not there. -/
def ParserCrashes (o : Rules) (content : Text) (ini : IniSection) : Prop :=
  ∃ fuel, parse o fuel content ini = some .crashed

/-- Lines can be continued; nothing on them is known. -/
def Rules.bare : Rules where
  ignore_case := false
  prefer_uppercase := false
  first_upper := false
  repeat_names := false
  flat := false
  toString _ := []
  line_can_continue := true
  no_nested_sections := false
  global_values := true
  comments_last := false
  join_multiline := false
  no_finalcomment_kill := false
  shell_quoted_value := false
  shell_unquote := id
  linecomments := []
  comments := []
  sections := []
  params := []

end YastCore.Ini
