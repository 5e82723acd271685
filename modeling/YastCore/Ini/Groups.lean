import YastCore.Builtin.Regexp
import YastCore.Ini.Scan

/-!
# The groups of a match

`RegexMatch`, which stores the groups of a pattern up to the first that took no part in the match, and the
places where `IniParser::parse` and `parse_helper` look a group up. `regexec` is a parameter.
-/

namespace YastCore.Ini

open Lines Loop CharString

/-! ### A match -/

/-- A compiled pattern. `regexec` reports nothing for a group that the pattern does not have. -/
structure Pattern where
  re_nsub : ℕ
  regexec : (input : Text) → Option (RegMatch input.length)
  unset : ∀ input m, regexec input = some m → ∀ i, re_nsub < i → m.part i = none

/-- The loop that fills `matches`, from a group on and with so many places left. -/
def pushMatches (s : Text) {n : ℕ} (m : RegMatch n) : ℕ → ℕ → List Text
  | 0, _ => []
  | left + 1, i =>
    match m.at i with
    | some r => substr s r.so (r.eo - r.so) :: pushMatches s m left (i + 1)
    | none => []

/-- The constructor of `RegexMatch`. -/
def regexMatch (rx : Pattern) (s : Text) (nmatch : ℕ) : Match :=
  match rx.regexec (cut s) with
  | some m =>
    ⟨pushMatches s m (if nmatch = 0 then 1 else nmatch) 0, s.take m.whole.so ++ s.drop m.whole.eo⟩
  | none => ⟨[], s⟩

/-- The default of `nmatch`. -/
def defaultNmatch : ℕ := 20

/-- A match as `operator bool` sees it. -/
def regexOf (nmatch : ℕ) (rx : Pattern) : Regex := fun s =>
  if (regexMatch rx s nmatch).groups.length = 0 then none else some (regexMatch rx s nmatch)

/-- One string for every group of the pattern, empty for a group that took no part. -/
def HoldsGroups (rx : Pattern) (s : Text) (nmatch : ℕ) (m : RegMatch (cut s).length) : Prop :=
  (regexMatch rx s nmatch).groups.length = rx.re_nsub + 1 ∧
    ∀ i ≤ rx.re_nsub, (regexMatch rx s nmatch).groups[i]? = some (matchedText s (m.at i))

/-! ### The patterns of the configuration -/

structure SectionPatterns where
  begin_rx : Pattern
  end_rx : Pattern
  end_valid : Bool

structure ParamPatterns where
  line_rx : Pattern
  begin_rx : Pattern
  end_rx : Pattern
  multiline_valid : Bool

structure Patterns where
  linecomments : List Pattern
  comments : List Pattern
  sections : List SectionPatterns
  params : List ParamPatterns
  rewrites : List Pattern

def SectionPatterns.rule (r : SectionPatterns) : SectionRule :=
  ⟨regexOf defaultNmatch r.begin_rx, regexOf defaultNmatch r.end_rx, r.end_valid⟩

def ParamPatterns.rule (r : ParamPatterns) : ParamRule :=
  ⟨regexOf defaultNmatch r.line_rx, regexOf defaultNmatch r.begin_rx, regexOf defaultNmatch r.end_rx,
    r.multiline_valid⟩

/-- The rules with these patterns. -/
def Patterns.rules (p : Patterns) (o : Rules) : Rules :=
  { o with
    linecomments := p.linecomments.map (regexOf 0)
    comments := p.comments.map (regexOf defaultNmatch)
    sections := p.sections.map SectionPatterns.rule
    params := p.params.map ParamPatterns.rule }

/-! ### Lookups -/

/-- `m[index]` of a match. -/
structure Lookup where
  rx : Pattern
  s : Text
  m : RegMatch (cut s).length
  index : ℕ
  found : rx.regexec (cut s) = some m

/-- The lookup is within the vector. -/
def Lookup.InRange (l : Lookup) : Prop := l.index < (regexMatch l.rx l.s defaultNmatch).groups.length

/-- The group that is looked up and those before it took part in the match. -/
def Lookup.TookPart (l : Lookup) : Prop := ∀ j, 0 < j → j ≤ l.index → (l.m.part j).isSome = true

/-- The lookups in the match of one pattern. -/
def matchLookups (indices : Match → List ℕ) (rx : Pattern) (s : Text) : List Lookup :=
  match h : rx.regexec (cut s) with
  | none => []
  | some m => (indices (regexMatch rx s defaultNmatch)).map fun i => ⟨rx, s, m, i, h⟩

/-- The lookups in the match of the first rule that matches. -/
def firstLookups {α : Type} (regex : α → Option Pattern) (indices : Match → List ℕ) : List α → Text → List Lookup
  | [], _ => []
  | r :: rules, s =>
    match regex r with
    | none => firstLookups regex indices rules s
    | some rx =>
      if (rx.regexec (cut s)).isSome then matchLookups indices rx s else firstLookups regex indices rules s

namespace Patterns

variable (p : Patterns)

/-- `m[0]` of a comment on the line. -/
def commentLookups (line : Text) : List Lookup := firstLookups some (fun _ => [0]) p.comments line

/-- `m[1]` at the end of a broken line. -/
def endLookups (h : Helper) (line : Text) : List Lookup :=
  match p.params[h.matched_by]? with
  | some r => matchLookups (fun _ => [1]) r.end_rx line
  | none => []

/-- `m[1]` of the first line of a section. -/
def sectionLookups (line : Text) : List Lookup :=
  firstLookups (fun r : SectionPatterns => some r.begin_rx) (fun _ => [1]) p.sections line

/-- `1 < m.matches.size () ? m[1] : ""` -/
def sectionEndLookups (line : Text) : List Lookup :=
  firstLookups (fun r : SectionPatterns => if r.end_valid then some r.end_rx else none)
    (fun m => if 1 < m.groups.length then [1] else []) p.sections line

/-- `m[1]` and `m[2]` of a line with a value. -/
def valueLookups (line : Text) : List Lookup :=
  firstLookups (fun r : ParamPatterns => some r.line_rx) (fun _ => [1, 2]) p.params line

/-- `m[1]` and `m[2]` of a broken line. -/
def beginLookups (line : Text) : List Lookup :=
  firstLookups (fun r : ParamPatterns => if r.multiline_valid then some r.begin_rx else none) (fun _ => [1, 2])
    p.params line

/-- The lookups where the parser is not in a broken line. -/
def plainLookups (o : Rules) (h : Helper) (line : Text) : List Lookup :=
  p.sectionLookups line ++
    match h.beginSection (p.rules o) line with
    | none => []
    | some (h, line) =>
      p.sectionEndLookups line ++
        match h.endSection (p.rules o) line with
        | none => []
        | some (h, line) =>
          p.valueLookups line ++
            match h.takeValue (p.rules o) line with
            | none => []
            | some (h, line) =>
              p.beginLookups line ++
                match h.beginValue (p.rules o) line with
                | none => []
                | some (_, line) => if o.comments_last then p.commentLookups line else []

/-- The lookups behind those of a comment. -/
def stateLookups (o : Rules) (h : Helper) (line : Text) : List Lookup :=
  if h.state then
    p.endLookups h line ++
      match h.continueValue (p.rules o) line with
      | none => []
      | some (h, line) => if h.state then [] else p.plainLookups o h line
  else p.plainLookups o h line

/-- The lookups of a pass through the loop of `parse_helper`. -/
def lineLookups (o : Rules) (h : Helper) (line : Text) : List Lookup :=
  if (firstMatch some (p.rules o).linecomments line).isSome then []
  else if o.comments_last then p.stateLookups o h line
  else
    p.commentLookups line ++
      p.stateLookups o (h.takeComment (p.rules o) line).1 (h.takeComment (p.rules o) line).2

/-- The lookups of `parse_helper`, in as many passes as it is given. -/
def runLookups (o : Rules) : ℕ → Scanner → Text → Helper → List Lookup
  | 0, _, _, _ => []
  | fuel + 1, scanner, line, h =>
    if scanner.failbit then []
    else
      match scannerGet o.line_can_continue fuel scanner line with
      | none => []
      | some (line, scanner) =>
        p.lineLookups o h line ++
          match h.parseLine (p.rules o) line with
          | none => []
          | some (h, line) => runLookups o fuel scanner line h

/-- `m[1]` of the rule that rewrites the name of a file, in the loop of `parse` over the files. -/
def rewriteLookups (names : List Text) : List Lookup :=
  names.flatMap fun section_name => firstLookups some (fun _ => [1]) p.rewrites section_name

end Patterns

/-- What `parse_helper` does with a line outside of a broken one. -/
def plainSteps (o : Rules) (r : Helper × Text) : Option (Helper × Text) :=
  (r.1.beginSection o r.2).bind fun r =>
    (r.1.endSection o r.2).bind fun r =>
      (r.1.takeValue o r.2).bind fun r =>
        (r.1.beginValue o r.2).bind fun r => some (if o.comments_last then r.1.takeComment o r.2 else r)

/-- What it does behind the comments. -/
def stateSteps (o : Rules) (r : Helper × Text) : Option (Helper × Text) :=
  if r.1.state then
    (r.1.continueValue o r.2).bind fun r => if r.1.state then some r else plainSteps o r
  else if r.1.state then some r
  else plainSteps o r

lemma parseLine_eq {o : Rules} {h : Helper} {line : Text}
    (hcomment : ¬ (firstMatch some o.linecomments line).isSome = true) :
    h.parseLine o line = stateSteps o (if o.comments_last then (h, line) else h.takeComment o line) := by
  rw [Helper.parseLine, if_neg hcomment]
  rfl

/-! ### What a match holds -/

section

variable {s line : Text} {n i k left nmatch : ℕ} {m : RegMatch n} {rx : Pattern} {l : Lookup}

/-- The vector goes as far as the groups took part. -/
lemma lt_length_pushMatches_iff (s : Text) (m : RegMatch n) (left i k : ℕ) :
    k < (pushMatches s m left i).length ↔ k < left ∧ ∀ j ≤ k, (m.at (i + j)).isSome = true := by
  induction left generalizing i k with
  | zero => simp [pushMatches]
  | succ left ih =>
    rw [pushMatches]
    cases hat : m.at i with
    | none =>
      refine iff_of_false (Nat.not_lt_zero k) fun h => ?_
      have hfirst := h.2 0 (Nat.zero_le k)
      rw [Nat.add_zero, hat] at hfirst
      cases hfirst
    | some r =>
      cases k with
      | zero =>
        refine iff_of_true (Nat.succ_pos _) ⟨Nat.succ_pos _, fun j hj => ?_⟩
        rw [Nat.le_zero.mp hj, Nat.add_zero, hat]
        rfl
      | succ k =>
        dsimp only
        rw [List.length_cons, Nat.succ_lt_succ_iff, ih, Nat.succ_lt_succ_iff]
        refine and_congr_right fun _ => ⟨fun h j hj => ?_, fun h j hj => ?_⟩
        · cases j with
          | zero =>
            rw [Nat.add_zero, hat]
            rfl
          | succ j =>
            rw [show i + (j + 1) = i + 1 + j by omega]
            exact h j (Nat.le_of_succ_le_succ hj)
        · rw [show i + 1 + j = i + (j + 1) by omega]
          exact h (j + 1) (Nat.succ_le_succ hj)

lemma getElem?_pushMatches (h : k < (pushMatches s m left i).length) :
    (pushMatches s m left i)[k]? = some (matchedText s (m.at (i + k))) := by
  induction left generalizing i k with
  | zero => cases h
  | succ left ih =>
    rw [pushMatches] at h ⊢
    cases hat : m.at i with
    | none =>
      rw [hat] at h
      cases h
    | some r =>
      rw [hat] at h
      cases k with
      | zero =>
        have hzero : m.at (i + 0) = some r := hat
        rw [hzero]
        rfl
      | succ k =>
        rw [show i + (k + 1) = i + 1 + k by omega]
        exact ih (Nat.lt_of_succ_lt_succ h)

lemma at_isSome_iff (m : RegMatch n) (k : ℕ) :
    (∀ j ≤ k, (m.at (0 + j)).isSome = true) ↔ ∀ j, 0 < j → j ≤ k → (m.part j).isSome = true := by
  constructor
  · intro h j hpos hj
    have hat := h j hj
    rwa [Nat.zero_add, RegMatch.at, if_neg (Nat.ne_of_gt hpos)] at hat
  · intro h j hj
    rw [Nat.zero_add, RegMatch.at]
    split
    · rfl
    · next hne => exact h j (Nat.pos_of_ne_zero hne) hj

lemma groups_eq {m : RegMatch (cut s).length} (hm : rx.regexec (cut s) = some m) (nmatch : ℕ) :
    (regexMatch rx s nmatch).groups = pushMatches s m (if nmatch = 0 then 1 else nmatch) 0 := by
  rw [regexMatch, hm]

/-- All groups are held exactly if there is room for them and all of them took part. -/
lemma holdsGroups_iff {m : RegMatch (cut s).length} (hm : rx.regexec (cut s) = some m) (nmatch : ℕ) :
    HoldsGroups rx s nmatch m ↔
      rx.re_nsub < (if nmatch = 0 then 1 else nmatch) ∧ ∀ j, 0 < j → j ≤ rx.re_nsub → (m.part j).isSome = true := by
  rw [HoldsGroups, groups_eq hm]
  generalize (if nmatch = 0 then 1 else nmatch) = room
  rw [← at_isSome_iff, ← lt_length_pushMatches_iff s m room 0 rx.re_nsub]
  constructor
  · rintro ⟨hlength, -⟩
    omega
  · intro hlt
    refine ⟨?_, fun i hi => ?_⟩
    · have hend : ¬ rx.re_nsub + 1 < (pushMatches s m room 0).length := by
        rw [lt_length_pushMatches_iff]
        rintro ⟨-, hall⟩
        have hbehind := hall (rx.re_nsub + 1) (Nat.le_refl _)
        rw [Nat.zero_add, RegMatch.at, if_neg (Nat.succ_ne_zero _),
          rx.unset (cut s) m hm _ (Nat.lt_succ_self _)] at hbehind
        cases hbehind
      omega
    · have hget := getElem?_pushMatches (k := i) (lt_of_le_of_lt hi hlt)
      rwa [Nat.zero_add] at hget

/-- A lookup is in range exactly if its group took part, with those before it. -/
lemma inRange_iff (hindex : l.index < defaultNmatch) : l.InRange ↔ l.TookPart := by
  rw [Lookup.InRange, groups_eq l.found, if_neg (by decide), lt_length_pushMatches_iff, at_isSome_iff]
  exact and_iff_right hindex

/-! ### The lookups of a run -/

lemma index_matchLookups {indices : Match → List ℕ} (hindices : ∀ m, ∀ i ∈ indices m, i ≤ 2)
    (h : l ∈ matchLookups indices rx s) : l.index ≤ 2 := by
  unfold matchLookups at h
  split at h
  · cases h
  · obtain ⟨i, hi, rfl⟩ := List.mem_map.mp h
    exact hindices _ i hi

lemma index_firstLookups {α : Type} {regex : α → Option Pattern} {indices : Match → List ℕ} {rules : List α}
    (hindices : ∀ m, ∀ i ∈ indices m, i ≤ 2) (h : l ∈ firstLookups regex indices rules s) : l.index ≤ 2 := by
  induction rules with
  | nil => cases h
  | cons r rules ih =>
    rw [firstLookups] at h
    split at h
    · exact ih h
    · split at h
      · exact index_matchLookups hindices h
      · exact ih h

lemma le_two_of_mem_singleton {a : ℕ} (ha : a ≤ 2) (_ : Match) : ∀ i ∈ [a], i ≤ 2 := by
  intro i hi
  rw [List.mem_singleton.mp hi]
  exact ha

lemma le_two_of_mem_pair (_ : Match) : ∀ i ∈ [1, 2], i ≤ 2 := by
  decide

lemma le_two_of_mem_end (m : Match) : ∀ i ∈ (if 1 < m.groups.length then [1] else []), i ≤ 2 := by
  split
  · exact le_two_of_mem_singleton (by decide) m
  · intro i hi
    cases hi

variable {p : Patterns} {o : Rules} {h h' : Helper}

lemma index_commentLookups (hl : l ∈ p.commentLookups line) : l.index ≤ 2 :=
  index_firstLookups (le_two_of_mem_singleton (by decide)) hl

lemma index_plainLookups (hl : l ∈ p.plainLookups o h line) : l.index ≤ 2 := by
  rw [Patterns.plainLookups] at hl
  rcases List.mem_append.mp hl with hl | hl
  · exact index_firstLookups (le_two_of_mem_singleton (by decide)) hl
  split at hl
  · cases hl
  rcases List.mem_append.mp hl with hl | hl
  · exact index_firstLookups le_two_of_mem_end hl
  split at hl
  · cases hl
  rcases List.mem_append.mp hl with hl | hl
  · exact index_firstLookups le_two_of_mem_pair hl
  split at hl
  · cases hl
  rcases List.mem_append.mp hl with hl | hl
  · exact index_firstLookups le_two_of_mem_pair hl
  split at hl
  · cases hl
  split at hl
  · exact index_commentLookups hl
  · cases hl

lemma index_endLookups (hl : l ∈ p.endLookups h line) : l.index ≤ 2 := by
  rw [Patterns.endLookups] at hl
  split at hl
  · exact index_matchLookups (le_two_of_mem_singleton (by decide)) hl
  · cases hl

lemma index_stateLookups (hl : l ∈ p.stateLookups o h line) : l.index ≤ 2 := by
  rw [Patterns.stateLookups] at hl
  split at hl
  · rcases List.mem_append.mp hl with hl | hl
    · exact index_endLookups hl
    split at hl
    · cases hl
    split at hl
    · cases hl
    · exact index_plainLookups hl
  · exact index_plainLookups hl

lemma index_lineLookups (hl : l ∈ p.lineLookups o h line) : l.index ≤ 2 := by
  rw [Patterns.lineLookups] at hl
  split at hl
  · cases hl
  split at hl
  · exact index_stateLookups hl
  · rcases List.mem_append.mp hl with hl | hl
    · exact index_commentLookups hl
    · exact index_stateLookups hl

lemma index_runLookups {fuel : ℕ} {scanner : Scanner} (hl : l ∈ p.runLookups o fuel scanner line h) :
    l.index ≤ 2 := by
  induction fuel generalizing scanner line h with
  | zero => cases hl
  | succ fuel ih =>
    rw [Patterns.runLookups] at hl
    split at hl
    · cases hl
    split at hl
    · cases hl
    rcases List.mem_append.mp hl with hl | hl
    · exact index_lineLookups hl
    split at hl
    · cases hl
    · exact ih hl

lemma index_rewriteLookups {names : List Text} (hl : l ∈ p.rewriteLookups names) : l.index ≤ 2 := by
  obtain ⟨name, -, hl⟩ := List.mem_flatMap.mp hl
  exact index_firstLookups (le_two_of_mem_singleton (by decide)) hl

/-! ### A lookup out of range is a crash -/

lemma regexOf_of_none (hnone : rx.regexec (cut s) = none) (nmatch : ℕ) : regexOf nmatch rx s = none := by
  rw [regexOf, regexMatch, hnone]
  rfl

lemma regexOf_of_some {m : RegMatch (cut s).length} (hm : rx.regexec (cut s) = some m) :
    regexOf defaultNmatch rx s = some (regexMatch rx s defaultNmatch) := by
  have hwhole : 0 < (regexMatch rx s defaultNmatch).groups.length := by
    rw [groups_eq hm, lt_length_pushMatches_iff]
    refine ⟨by decide, fun j hj => ?_⟩
    rw [Nat.le_zero.mp hj]
    rfl
  rw [regexOf, if_neg (Nat.ne_of_gt hwhole)]

lemma mem_matchLookups {indices : Match → List ℕ} (hl : l ∈ matchLookups indices rx s) :
    l.rx = rx ∧ l.s = s ∧ l.index ∈ indices (regexMatch rx s defaultNmatch) := by
  unfold matchLookups at hl
  split at hl
  · cases hl
  · obtain ⟨i, hi, rfl⟩ := List.mem_map.mp hl
    exact ⟨rfl, rfl, hi⟩

/-- The lookups are those in the match that the parser takes. -/
lemma firstMatch_of_mem {α β : Type} {regex : α → Option Pattern} (regex' : β → Option Regex) (f : α → β)
    {indices : Match → List ℕ} {rules : List α}
    (hf : ∀ r, regex' (f r) = (regex r).map (regexOf defaultNmatch))
    (hl : l ∈ firstLookups regex indices rules s) :
    ∃ i, firstMatch regex' (rules.map f) s = some (i, regexMatch l.rx l.s defaultNmatch) ∧
      l.index ∈ indices (regexMatch l.rx l.s defaultNmatch) := by
  unfold firstMatch
  generalize 0 = k
  induction rules generalizing k with
  | nil => cases hl
  | cons r rules ih =>
    rw [firstLookups] at hl
    rw [List.map_cons, List.zipIdx_cons, List.findSome?_cons, hf]
    cases hr : regex r with
    | none =>
      rw [hr] at hl
      exact ih hl (k + 1)
    | some rx =>
      rw [hr] at hl
      dsimp only at hl
      rw [Option.map_some, Option.bind_some]
      cases hm : rx.regexec (cut s) with
      | none =>
        rw [hm, if_neg (by simp)] at hl
        rw [regexOf_of_none hm]
        exact ih hl (k + 1)
      | some m =>
        rw [hm, if_pos Option.isSome_some] at hl
        obtain ⟨hrx, hs, hindex⟩ := mem_matchLookups hl
        rw [regexOf_of_some hm, hrx, hs]
        exact ⟨k, rfl, hindex⟩

lemma getElem?_of_out (hout : ¬ l.InRange) : (regexMatch l.rx l.s defaultNmatch).groups[l.index]? = none :=
  List.getElem?_eq_none (Nat.le_of_not_lt hout)

/-- Of the two groups that are looked up one is missing. -/
lemma bind_groups_of_out {β : Type} (hindex : l.index ∈ [1, 2]) (hout : ¬ l.InRange)
    (f : Text → Text → Option β) :
    ((regexMatch l.rx l.s defaultNmatch).groups[1]?.bind fun key =>
      (regexMatch l.rx l.s defaultNmatch).groups[2]?.bind fun val => f key val) = none := by
  have hnone := getElem?_of_out hout
  rcases List.mem_cons.mp hindex with heq | hmem
  · rw [heq] at hnone
    rw [hnone]
    rfl
  · rw [List.mem_singleton.mp hmem] at hnone
    rw [hnone]
    cases (regexMatch l.rx l.s defaultNmatch).groups[1]? <;> rfl

lemma inRange_commentLookups (hl : l ∈ p.commentLookups line) : l.InRange := by
  obtain ⟨i, -, hindex⟩ := firstMatch_of_mem some (regexOf defaultNmatch) (fun _ => rfl) hl
  rw [List.mem_singleton] at hindex
  rw [inRange_iff (by rw [hindex]; decide)]
  intro j hpos hj
  omega

lemma inRange_sectionEndLookups (hl : l ∈ p.sectionEndLookups line) : l.InRange := by
  have hf : ∀ r : SectionPatterns, (if r.rule.end_valid then some r.rule.end_rx else none) =
      (if r.end_valid then some r.end_rx else none).map (regexOf defaultNmatch) := by
    intro r
    cases hvalid : r.end_valid <;> simp [SectionPatterns.rule, hvalid]
  obtain ⟨i, -, hindex⟩ := firstMatch_of_mem (fun r : SectionRule => if r.end_valid then some r.end_rx else none)
    SectionPatterns.rule hf hl
  split at hindex
  · next hlong =>
    rw [List.mem_singleton] at hindex
    rw [Lookup.InRange, hindex]
    exact hlong
  · cases hindex

lemma beginSection_eq_none (hl : l ∈ p.sectionLookups line) (hout : ¬ l.InRange) :
    h.beginSection (p.rules o) line = none := by
  obtain ⟨i, hfirst, hindex⟩ := firstMatch_of_mem (fun r : SectionRule => some r.begin_rx) SectionPatterns.rule
    (fun _ => rfl) hl
  have hnone := getElem?_of_out hout
  rw [List.mem_singleton.mp hindex] at hnone
  unfold Helper.beginSection
  rw [show (p.rules o).sections = p.sections.map SectionPatterns.rule from rfl, hfirst]
  dsimp only
  rw [hnone]
  rfl

lemma takeValue_eq_none (hl : l ∈ p.valueLookups line) (hout : ¬ l.InRange) :
    h.takeValue (p.rules o) line = none := by
  obtain ⟨i, hfirst, hindex⟩ := firstMatch_of_mem (fun r : ParamRule => some r.line_rx) ParamPatterns.rule
    (fun _ => rfl) hl
  unfold Helper.takeValue
  rw [show (p.rules o).params = p.params.map ParamPatterns.rule from rfl, hfirst]
  exact bind_groups_of_out hindex hout _

lemma beginValue_eq_none (hl : l ∈ p.beginLookups line) (hout : ¬ l.InRange) :
    h.beginValue (p.rules o) line = none := by
  have hf : ∀ r : ParamPatterns, (if r.rule.multiline_valid then some r.rule.begin_rx else none) =
      (if r.multiline_valid then some r.begin_rx else none).map (regexOf defaultNmatch) := by
    intro r
    cases hvalid : r.multiline_valid <;> simp [ParamPatterns.rule, hvalid]
  obtain ⟨i, hfirst, hindex⟩ := firstMatch_of_mem
    (fun r : ParamRule => if r.multiline_valid then some r.begin_rx else none) ParamPatterns.rule hf hl
  unfold Helper.beginValue
  rw [show (p.rules o).params = p.params.map ParamPatterns.rule from rfl, hfirst]
  exact bind_groups_of_out hindex hout _

lemma continueValue_eq_none (hl : l ∈ p.endLookups h line) (hout : ¬ l.InRange) :
    h.continueValue (p.rules o) line = none := by
  unfold Patterns.endLookups at hl
  cases hparam : p.params[h.matched_by]? with
  | none =>
    rw [hparam] at hl
    cases hl
  | some r =>
    rw [hparam] at hl
    obtain ⟨hrx, hs, hindex⟩ := mem_matchLookups hl
    have hm := l.found
    have hnone := getElem?_of_out hout
    rw [List.mem_singleton.mp hindex, hrx, hs] at hnone
    have hsome : regexOf defaultNmatch r.end_rx line = some (regexMatch r.end_rx line defaultNmatch) := by
      have hl' := regexOf_of_some hm
      rwa [hrx, hs] at hl'
    have hrule : (p.rules o).params[h.matched_by]? = some r.rule := by
      rw [show (p.rules o).params = p.params.map ParamPatterns.rule from rfl, List.getElem?_map, hparam]
      rfl
    unfold Helper.continueValue
    rw [hrule]
    dsimp only [bind, Option.bind]
    rw [show r.rule.end_rx line = regexOf defaultNmatch r.end_rx line from rfl, hsome]
    dsimp only
    rw [hnone]

lemma plainSteps_eq_none (hl : l ∈ p.plainLookups o h line) (hout : ¬ l.InRange) :
    plainSteps (p.rules o) (h, line) = none := by
  unfold plainSteps
  rw [Patterns.plainLookups] at hl
  rcases List.mem_append.mp hl with hl | hl
  · rw [beginSection_eq_none hl hout, Option.bind_none]
  cases hbegin : h.beginSection (p.rules o) line with
  | none => rfl
  | some r =>
    rw [hbegin] at hl
    rw [Option.bind_some]
    rcases List.mem_append.mp hl with hl | hl
    · exact absurd (inRange_sectionEndLookups hl) hout
    cases hend : r.1.endSection (p.rules o) r.2 with
    | none => rfl
    | some r =>
      rw [hend] at hl
      rw [Option.bind_some]
      rcases List.mem_append.mp hl with hl | hl
      · rw [takeValue_eq_none hl hout, Option.bind_none]
      cases hvalue : r.1.takeValue (p.rules o) r.2 with
      | none => rfl
      | some r =>
        rw [hvalue] at hl
        rw [Option.bind_some]
        rcases List.mem_append.mp hl with hl | hl
        · rw [beginValue_eq_none hl hout, Option.bind_none]
        cases hbroken : r.1.beginValue (p.rules o) r.2 with
        | none => rfl
        | some r =>
          rw [hbroken] at hl
          dsimp only at hl
          split at hl
          · exact absurd (inRange_commentLookups hl) hout
          · cases hl

lemma stateSteps_eq_none (hl : l ∈ p.stateLookups o h line) (hout : ¬ l.InRange) :
    stateSteps (p.rules o) (h, line) = none := by
  rw [Patterns.stateLookups] at hl
  rw [stateSteps]
  split at hl
  next hstate =>
    rw [if_pos hstate]
    rcases List.mem_append.mp hl with hl | hl
    · rw [continueValue_eq_none hl hout, Option.bind_none]
    cases hvalue : h.continueValue (p.rules o) line with
    | none => rfl
    | some r =>
      rw [hvalue] at hl
      dsimp only at hl
      rw [Option.bind_some]
      split at hl
      · cases hl
      next hdone =>
        rw [if_neg hdone]
        exact plainSteps_eq_none hl hout
  next hstate =>
    rw [if_neg hstate, if_neg hstate]
    exact plainSteps_eq_none hl hout

lemma parseLine_eq_none (hl : l ∈ p.lineLookups o h line) (hout : ¬ l.InRange) :
    h.parseLine (p.rules o) line = none := by
  rw [Patterns.lineLookups] at hl
  split at hl
  · cases hl
  next hcomment =>
    rw [parseLine_eq hcomment, show (p.rules o).comments_last = o.comments_last from rfl]
    split at hl
    next hlast =>
      rw [if_pos hlast]
      exact stateSteps_eq_none hl hout
    next hlast =>
      rw [if_neg hlast]
      rcases List.mem_append.mp hl with hl | hl
      · exact absurd (inRange_commentLookups hl) hout
      · exact stateSteps_eq_none hl hout

lemma parseHelper_crashes {fuel : ℕ} {scanner : Scanner} (hl : l ∈ p.runLookups o fuel scanner line h)
    (hout : ¬ l.InRange) : parseHelper (p.rules o) fuel scanner line h = some .crashed := by
  induction fuel generalizing scanner line h with
  | zero => cases hl
  | succ fuel ih =>
    rw [Patterns.runLookups] at hl
    rw [parseHelper, show (p.rules o).line_can_continue = o.line_can_continue from rfl]
    split at hl
    · cases hl
    next hfail =>
      rw [if_neg hfail]
      cases hget : scannerGet o.line_can_continue fuel scanner line with
      | none =>
        rw [hget] at hl
        cases hl
      | some r =>
        rw [hget] at hl
        dsimp only at hl ⊢
        rcases List.mem_append.mp hl with hl | hl
        · rw [parseLine_eq_none hl hout]
        cases hline : h.parseLine (p.rules o) r.1 with
        | none => rfl
        | some r =>
          rw [hline] at hl
          exact ih hl

end

/-- A match has all its groups if there is room for them and they took part. A lookup is in range if the groups up
to its own took part, and ends the parser if not. -/
theorem lookups_inRange_iff (p : Patterns) (o : Rules) :
    (∀ rx s nmatch m, rx.regexec (cut s) = some m →
      (HoldsGroups rx s nmatch m ↔
        rx.re_nsub < (if nmatch = 0 then 1 else nmatch) ∧
          ∀ j, 0 < j → j ≤ rx.re_nsub → (m.part j).isSome = true)) ∧
    (∀ names, ∀ l ∈ p.rewriteLookups names, l.InRange ↔ l.TookPart) ∧
    ∀ fuel scanner line h, ∀ l ∈ p.runLookups o fuel scanner line h,
      (l.InRange ↔ l.TookPart) ∧
        (¬ l.TookPart → parseHelper (p.rules o) fuel scanner line h = some .crashed) := by
  refine ⟨fun rx s nmatch m hm => holdsGroups_iff hm nmatch, fun names l hl => ?_, fun fuel scanner line h l hl => ?_⟩
  · exact inRange_iff (lt_of_le_of_lt (index_rewriteLookups hl) (by decide))
  · have hiff : l.InRange ↔ l.TookPart := inRange_iff (lt_of_le_of_lt (index_runLookups hl) (by decide))
    exact ⟨hiff, fun hout => parseHelper_crashes hl (hiff.not.mpr hout)⟩

/-- `^(a)?(=)` -/
def execOptionalKey : (input : Text) → Option (RegMatch input.length)
  | 61 :: rest =>
    let eq : Interval (rest.length + 1) := ⟨0, 1, by decide, Nat.le_add_left _ _, by decide⟩
    some ⟨eq, fun i => if i = 2 then some eq else none⟩
  | 97 :: 61 :: rest =>
    let key : Interval (rest.length + 2) := ⟨0, 1, by decide, Nat.le_add_left 1 _, by decide⟩
    let eq : Interval (rest.length + 2) := ⟨1, 2, by decide, Nat.le_add_left _ _, by decide⟩
    some ⟨⟨0, 2, by decide, Nat.le_add_left _ _, by decide⟩, fun i =>
      if i = 1 then some key else if i = 2 then some eq else none⟩
  | _ => none

lemma execOptionalKey_unset (input : Text) (m : RegMatch input.length) (hm : execOptionalKey input = some m)
    (i : ℕ) (hi : 2 < i) : m.part i = none := by
  have hone : i ≠ 1 := by omega
  have htwo : i ≠ 2 := by omega
  unfold execOptionalKey at hm
  split at hm
  · obtain rfl := Option.some.inj hm
    exact if_neg htwo
  · obtain rfl := Option.some.inj hm
    exact (if_neg hone).trans (if_neg htwo)
  · cases hm

def optionalKey : Pattern where
  re_nsub := 2
  regexec := execOptionalKey
  unset := execOptionalKey_unset

/-- A line with a value has a key that may be missing. -/
def Patterns.optional : Patterns where
  linecomments := []
  comments := []
  sections := []
  params := [⟨optionalKey, optionalKey, optionalKey, false⟩]
  rewrites := []

/-- The line `=`. -/
theorem not_lookups_inRange :
    ¬ ((∀ rx s nmatch m, rx.regexec (cut s) = some m → HoldsGroups rx s nmatch m) ∧
      ∀ (p : Patterns) (o : Rules) (content : Text) (ini : IniSection) (fuel : ℕ),
        ∀ l ∈ p.runLookups o fuel ⟨content, false, false⟩ [] { ini := ini }, l.InRange) := by
  rintro ⟨-, hall⟩
  have hrun := hall .optional { Rules.bare with line_can_continue := false } [61, 10] .new 1
  have hout : ∃ l ∈ Patterns.optional.runLookups { Rules.bare with line_can_continue := false } 1
      ⟨[61, 10], false, false⟩ [] { ini := .new }, ¬ l.InRange :=
    ⟨⟨optionalKey, [61], _, 1, rfl⟩, .head _, Nat.lt_irrefl 1⟩
  obtain ⟨l, hl, hout⟩ := hout
  exact hout (hrun l hl)

end YastCore.Ini
