import YastCore.Ini.Quotes

/-!
# Quoted values

What `shell_quote` prints is read by `shell_unquote`, by the ini parser that calls it, and by a shell.
-/

namespace YastCore.Ini.Quotes

open Lines Loop

/-! ### Words of a shell -/

def isBlank (c : UInt8) : Bool := c == 32 || c == 9

/-- Characters that stand for more than themselves where they are not quoted. -/
def isSpecial (c : UInt8) : Bool := (newline :: backquote :: ascii "|&;<>()$*?[#~=%").contains c

/-- The words that are complete, and the one that is being read, if one has begun. -/
structure Words where
  quoting : Quoting
  word : Option Text
  words : List Text

namespace Words

def add (w : Words) (quoting : Quoting) (text : Text) : Words := ⟨quoting, some (w.word.getD [] ++ text), w.words⟩

/-- What POSIX says of one more character. None stands for an expansion, a pattern or an operator. -/
def read (w : Words) (c : UInt8) : Option Words :=
  match w.quoting with
  | .bare =>
    if c = squote then some (w.add .squoted [])
    else if c = dquote then some (w.add .dquoted [])
    else if c = backslash then some { w with quoting := .escaped }
    else if isBlank c then some ⟨.bare, none, w.words ++ w.word.toList⟩
    else if isSpecial c then none
    else some (w.add .bare [c])
  | .escaped => if c = newline then some { w with quoting := .bare } else some (w.add .bare [c])
  | .dquoted =>
    if c = dquote then some { w with quoting := .bare }
    else if c = backslash then some { w with quoting := .dquotedEscaped }
    else if c = dollar ∨ c = backquote then none
    else some (w.add .dquoted [c])
  | .dquotedEscaped =>
    if c = newline then some { w with quoting := .dquoted }
    else if escapable c then some (w.add .dquoted [c])
    else some (w.add .dquoted [backslash, c])
  | .squoted => if c = squote then some { w with quoting := .bare } else some (w.add .squoted [c])

/-- At the end of the line no quote is open. -/
def finish (w : Words) : Option (List Text) :=
  if w.quoting = .bare then some (w.words ++ w.word.toList) else none

def readAll (w : Words) : Text → Option Words
  | [] => some w
  | c :: text => (w.read c).bind fun w => w.readAll text

end Words

/-- The words of a line, where it has no others than plain and quoted ones. -/
def shellWords (line : Text) : Option (List Text) := (Words.readAll ⟨.bare, none, []⟩ line).bind Words.finish

/-! ### The text in the quotes -/

section

variable {w : Words} {word : Text} {words : List Text} {c : UInt8} {s rest : Text}

lemma after_quoteChar (c : UInt8) : Quoting.after .squoted (quoteChar c) = .squoted := by
  by_cases hq : c = squote
  · rw [quoteChar, if_pos hq]
    rfl
  · rw [quoteChar, if_neg hq]
    exact Quoting.next_squoted hq

lemma plain_quoteChar (c : UInt8) : Quoting.plain .squoted (quoteChar c) = [c] := by
  by_cases hq : c = squote
  · subst hq
    rfl
  · rw [quoteChar, if_neg hq, Quoting.plain_cons, Quoting.gives_squoted hq, Quoting.plain_nil]
    rfl

lemma after_quoted (s : Text) : Quoting.after .squoted (s.flatMap quoteChar) = .squoted := by
  induction s with
  | nil => rfl
  | cons c s ih => rw [List.flatMap_cons, Quoting.after_append, after_quoteChar, ih]

lemma plain_quoted (s : Text) : Quoting.plain .squoted (s.flatMap quoteChar) = s := by
  induction s with
  | nil => rfl
  | cons c s ih =>
    rw [List.flatMap_cons, Quoting.plain_append, plain_quoteChar, after_quoteChar, ih, List.singleton_append]

lemma after_shellQuote (s : Text) : Quoting.after .bare (shellQuote s) = .bare := by
  rw [shellQuote, Quoting.after_cons, Quoting.next_bare_squote, Quoting.after_append, after_quoted]
  rfl

lemma plain_shellQuote (s : Text) : Quoting.plain .bare (shellQuote s) = s := by
  rw [shellQuote, Quoting.plain_cons, Quoting.next_bare_squote, Quoting.plain_append, plain_quoted, after_quoted]
  exact List.append_nil s

lemma shellUnquote_shellQuote (s : Text) : ∃ fuel, shellUnquote fuel (shellQuote s) = some s := by
  have hends : ¬ EndsInBackslash (shellQuote s) := by
    rw [endsInBackslash_iff, after_shellQuote]
    decide
  obtain ⟨fuel, h⟩ := shellUnquote_eq_unquoted hends
  refine ⟨fuel, ?_⟩
  rw [h, unquoted, after_shellQuote, plain_shellQuote]
  rfl

/-! ### The word in the quotes -/

lemma readAll_append (w : Words) (s rest : Text) :
    w.readAll (s ++ rest) = (w.readAll s).bind fun w => w.readAll rest := by
  induction s generalizing w with
  | nil => rfl
  | cons c s ih =>
    rw [List.cons_append, Words.readAll, Words.readAll, Option.bind_assoc]
    congr 1
    funext w
    exact ih w

lemma readAll_quoteChar (word : Text) (words : List Text) (c : UInt8) :
    Words.readAll ⟨.squoted, some word, words⟩ (quoteChar c) = some ⟨.squoted, some (word ++ [c]), words⟩ := by
  by_cases hq : c = squote
  · subst hq
    have hnil : word ++ [squote] ++ [] = word ++ [squote] := List.append_nil _
    rw [← hnil]
    rfl
  · rw [quoteChar, if_neg hq, Words.readAll, Words.read]
    dsimp only
    rw [if_neg hq]
    rfl

lemma readAll_quoted (word : Text) (words : List Text) (s : Text) :
    Words.readAll ⟨.squoted, some word, words⟩ (s.flatMap quoteChar) = some ⟨.squoted, some (word ++ s), words⟩ := by
  induction s generalizing word with
  | nil =>
    rw [List.append_nil]
    rfl
  | cons c s ih =>
    rw [List.flatMap_cons, readAll_append, readAll_quoteChar, Option.bind_some, ih, List.append_assoc,
      List.singleton_append]

lemma shellWords_shellQuote (s : Text) : shellWords (shellQuote s) = some [s] := by
  have hopens : Words.read ⟨.bare, none, []⟩ squote = some ⟨.squoted, some [], []⟩ := rfl
  rw [shellWords, shellQuote, Words.readAll, hopens, Option.bind_some, readAll_append, readAll_quoted]
  rfl

end

/-! ### Values of a file -/

/-- The agent writes and reads with `shell_quoted_value`. -/
structure ShellQuoted (w : Formats) (o : Rules) : Prop where
  quotes : w.quote = shellQuote
  quoted : o.shell_quoted_value = true
  unquotes : ∀ fuel text res, shellUnquote fuel text = some res → o.shell_unquote text = res

/-- The same rules for values that are not quoted. -/
def Rules.unquoted (o : Rules) : Rules := { o with shell_quoted_value := false }

/-- The reader stores the value that was written: where it is given the quoted text, where a rule finds it
on the line that was written, and where it is the last part of a broken line. -/
structure ReadBack (w : Formats) (o : Rules) (e : IniEntry) : Prop where
  stored : ∀ (h : Helper) (key : Text) (rb : ℕ),
    h.storeValue o key (w.quote (cut e.val)) rb = h.storeValue (Rules.unquoted o) key (cut e.val) rb
  line : ∀ (h : Helper) (depth : ℕ) (out : Text → Text → Text) (i : ℕ) (m : Match),
    firstMatch (fun r : ParamRule => some r.line_rx) o.params
      (indent2 w depth ++ out e.getName (w.quote (cut e.val))) = some (i, m) →
    m.groups[1]? = some e.getName → m.groups[2]? = some (w.quote (cut e.val)) →
    h.takeValue o (indent2 w depth ++ out e.getName (w.quote (cut e.val))) =
      (h.storeValue (Rules.unquoted o) e.getName (cut e.val) i).map fun h => (h, m.rest)
  broken : ∀ (h : Helper) (param : ParamRule) (line part : Text) (m : Match),
    o.params[h.matched_by]? = some param → param.end_rx line = some m → m.groups[1]? = some part →
    h.val ++ (if o.join_multiline then 32 else newline) :: part = w.quote (cut e.val) →
    h.continueValue o line =
      (Helper.storeValue (Rules.unquoted o) { h with state := false, val := w.quote (cut e.val) } h.key
        (cut e.val) h.matched_by).map fun h => (h, m.rest)

section

variable {w : Formats} {o : Rules}

lemma ShellQuoted.unquote (hq : ShellQuoted w o) (s : Text) : o.shell_unquote (w.quote s) = s := by
  obtain ⟨fuel, h⟩ := shellUnquote_shellQuote s
  rw [hq.quotes]
  exact hq.unquotes fuel _ _ h

lemma ShellQuoted.storeValue (hq : ShellQuoted w o) (h : Helper) (key s : Text) (rb : ℕ) :
    h.storeValue o key (w.quote s) rb = h.storeValue (Rules.unquoted o) key s rb := by
  unfold Helper.storeValue
  rw [if_pos hq.quoted, hq.unquote]
  rfl

lemma ShellQuoted.readBack (hq : ShellQuoted w o) (e : IniEntry) : ReadBack w o e := by
  refine ⟨fun h key rb => hq.storeValue h key (cut e.val) rb, ?_, ?_⟩
  · intro h depth out i m hmatch hkey hval
    rw [Helper.takeValue, hmatch]
    dsimp only
    rw [hkey, hval]
    dsimp only [bind, Option.bind]
    rw [hq.storeValue]
    cases h.storeValue (Rules.unquoted o) e.getName (cut e.val) i with
    | none => rfl
    | some h' => rfl
  · intro h param line part m hparam hend hpart hwhole
    rw [Helper.continueValue, hparam]
    dsimp only [bind, Option.bind]
    rw [hend]
    dsimp only
    rw [hpart]
    dsimp only
    rw [hwhole, hq.storeValue]
    cases Helper.storeValue (Rules.unquoted o) { h with state := false, val := w.quote (cut e.val) } h.key
        (cut e.val) h.matched_by with
    | none => rfl
    | some h' => rfl

end

/-! A rule for `name=text`. -/

def assignment (line : Text) : Option Match :=
  match line.dropWhile (· ≠ 61) with
  | [] => none
  | _ :: text => some ⟨[line, line.takeWhile (· ≠ 61), text], []⟩

def assignmentFormats : Formats where
  subindent := []
  sections := []
  params := [fun name text => name ++ 61 :: text]
  quote := shellQuote

def assignmentRules : Rules :=
  { Rules.bare with
    shell_quoted_value := true
    shell_unquote := unquoted
    params := [⟨assignment, fun _ => none, fun _ => none, false⟩] }

lemma assignment_shellQuoted : ShellQuoted assignmentFormats assignmentRules :=
  ⟨rfl, rfl, fun _ _ _ h => (eq_unquoted h).symm⟩

/-- The name `n` with the value `it's`. -/
def apostrophe : IniEntry := ⟨⟨[110], [], 0, false⟩, ascii "it's"⟩

end YastCore.Ini.Quotes
