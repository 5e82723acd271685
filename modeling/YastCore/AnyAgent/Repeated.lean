import YastCore.AnyAgent.Cache

/-!
# Reading again

Each `Read` parses the lines again. The parser starts with the marker of the file's end and with the current match
that the last parse has left.
-/

namespace YastCore.AnyAgent

open Bounded Lines Transport YCPValue

def HasText (d : Description) (lines : List Text) : Prop := ∃ line ∈ lines, d.skipsLine line = false

/-- A later `Read` finds the marker and the match as the first one did, as far as the lines and the syntax let
them matter. -/
structure Resembles (a : Agent) (answer : FileAnswer) (start st : AgentState) : Prop where
  got_anything : (∃ lines, (readFile answer start).1 = some lines ∧ HasText a.toDescription lines) ∨
    st.got_anything = start.got_anything
  currentMatch : MatchesInActions a.toDescription a.mSyntax ∨ st.currentMatch = start.currentMatch

/-- Calls of `Read` one after the other, with the values that they return. -/
inductive RepeatedReads (a : Agent) (answer : FileAnswer) (path : List Text) (start : AgentState) :
    AgentState → List YCPValue → Prop where
  | first : RepeatedReads a answer path start start []
  | again {st st' : AgentState} {values : List YCPValue} {v : YCPValue}
      (before : RepeatedReads a answer path start st values) (resembles : Resembles a answer start st)
      (run : Reads a answer path st v st') : RepeatedReads a answer path start st' (values ++ [v])

/-- `buf.st_mtime` -/
def FileAnswer.lastChange : FileAnswer → Option Int
  | .noAccess st_mtime | .noOpen st_mtime | .opens st_mtime _ => some st_mtime
  | _ => none

/-- The lines, unless those from before are kept. -/
def FileAnswer.taken : FileAnswer → Option (List Text)
  | .notFound | .noAccess _ => some []
  | .opens _ content => some (fileData content)
  | .runs output => some (fileData output)
  | _ => none

section

variable {a : Agent} {answer : FileAnswer} {path : List Text} {st st' start : AgentState} {lines : List Text}
  {d : Description}

/-! ### The file -/

/-- Where the time is the one that was stored, the lines are kept. -/
lemma readFile_kept (h : answer.lastChange = some st.mtime) : readFile answer st = (st.alldata, st) := by
  cases answer with
  | noAccess st_mtime => exact if_pos (Option.some.inj h)
  | noOpen st_mtime => exact if_pos (Option.some.inj h)
  | opens st_mtime content => exact if_pos (Option.some.inj h)
  | _ => cases h

/-- Otherwise they are taken, and if the time is stored there are lines. -/
lemma readFile_taken (h : answer.lastChange ≠ some st.mtime) :
    (readFile answer st).1 = answer.taken ∧
      (answer.lastChange = some (readFile answer st).2.mtime → ∃ lines, answer.taken = some lines) := by
  cases answer with
  | noAccess st_mtime =>
    have hne : st_mtime ≠ st.mtime := fun heq => h (congrArg some heq)
    rw [readFile, if_neg hne]
    exact ⟨rfl, fun hmtime => absurd hmtime h⟩
  | noOpen st_mtime =>
    have hne : st_mtime ≠ st.mtime := fun heq => h (congrArg some heq)
    rw [readFile, if_neg hne]
    exact ⟨rfl, fun hmtime => absurd hmtime h⟩
  | opens st_mtime content =>
    have hne : st_mtime ≠ st.mtime := fun heq => h (congrArg some heq)
    rw [readFile, if_neg hne]
    exact ⟨rfl, fun _ => ⟨fileData content, rfl⟩⟩
  | _ => exact ⟨rfl, fun hmtime => by cases hmtime⟩

/-- Only the time and the lines matter for the lines that the next `Read` takes. -/
lemma readFile_congr (hmtime : st'.mtime = st.mtime) (halldata : st'.alldata = st.alldata) :
    (readFile answer st').1 = (readFile answer st).1 := by
  by_cases hkept : answer.lastChange = some st.mtime
  · rw [readFile_kept hkept, readFile_kept (hkept.trans (congrArg some hmtime.symm))]
    exact halldata
  · have hkept' : answer.lastChange ≠ some st'.mtime := by
      rw [hmtime]
      exact hkept
    exact (readFile_taken hkept').1.trans (readFile_taken hkept).1.symm

lemma readFile_start (answer : FileAnswer) (st : AgentState) : (readFile answer st).2.start = st.start := by
  cases answer with
  | noAccess st_mtime =>
    rw [readFile]
    split
    · rfl
    · rfl
  | noOpen st_mtime =>
    rw [readFile]
    split
    · rfl
    · rfl
  | opens st_mtime content =>
    rw [readFile]
    split
    · rfl
    · rfl
  | _ => rfl

/-- The time and the lines that a `Read` leaves. -/
structure Took (answer : FileAnswer) (st st' : AgentState) : Prop where
  mtime : st'.mtime = (readFile answer st).2.mtime
  lines : ∀ lines, (readFile answer st).1 = some lines → st'.alldata = some lines
  nothing : (readFile answer st).1 = none → st'.alldata = (readFile answer st).2.alldata

/-- The next `Read` takes the same lines. -/
lemma Took.readFile_eq (h : Took answer st st') : (readFile answer st').1 = (readFile answer st).1 := by
  obtain ⟨hmtime, hlines, hnothing⟩ := h
  by_cases hkept : answer.lastChange = some st.mtime
  · rw [readFile_kept hkept] at hmtime hlines hnothing
    refine readFile_congr hmtime ?_
    cases hdata : st.alldata with
    | none => exact (hnothing hdata).trans hdata
    | some lines => exact hlines lines hdata
  · obtain ⟨htaken, hstored⟩ := readFile_taken hkept
    by_cases hkept' : answer.lastChange = some st'.mtime
    · obtain ⟨lines, hsome⟩ := hstored (hkept'.trans (congrArg some hmtime))
      rw [readFile_kept hkept', hlines lines (htaken.trans hsome), htaken, hsome]
    · exact (readFile_taken hkept').1.trans htaken.symm

lemma read_of_none (h : (readFile answer st).1 = none) (n : ℕ) :
    a.read answer n path st = .gives (null, (readFile answer st).2) := by
  rw [Agent.read, Agent.validateCache]
  cases hfile : readFile answer st with
  | mk filedata st₁ =>
    rw [hfile] at h
    subst h
    rfl

/-- What `Read` makes of the result of the parser. -/
def readResult (path : List Text) (st : AgentState) (lines : List Text) (r : Parsed) : Answer (YCPValue × AgentState) :=
  if r.value.isNull then pure (null, st.parsed lines r)
  else
    match Agent.readPath r.value (some lines) path with
    | some v => pure (v, st.parsed lines r)
    | none => .undefined

lemma read_of_some (h : (readFile answer st).1 = some lines) (n : ℕ) :
    a.read answer n path st =
      a.parseLines lines st.start n >>= readResult path (readFile answer st).2 lines := by
  have hstart := readFile_start answer st
  rw [Agent.read, Agent.validateCache]
  cases hfile : readFile answer st with
  | mk filedata st₁ =>
    rw [hfile] at h hstart
    dsimp only at h hstart
    subst h
    dsimp only
    rw [Agent.parseCache, hstart]
    cases a.parseLines lines st.start n with
    | pending => rfl
    | gives r => rfl
    | undefined => rfl

lemma readResult_gives {r : Parsed} {v : YCPValue} (h : readResult path st lines r = .gives (v, st')) :
    st' = st.parsed lines r := by
  unfold readResult at h
  split at h
  · cases h
    rfl
  split at h
  · cases h
    rfl
  · cases h

lemma reads_took {v : YCPValue} (h : Reads a answer path st v st') : Took answer st st' := by
  obtain ⟨n, hrun⟩ := h.gives
  cases hlines : (readFile answer st).1 with
  | none =>
    rw [read_of_none hlines] at hrun
    cases hrun
    refine ⟨rfl, fun lines h => ?_, fun _ => rfl⟩
    rw [hlines] at h
    cases h
  | some lines =>
    rw [read_of_some hlines] at hrun
    obtain ⟨r, -, hr⟩ := bind_gives_iff.mp hrun
    rw [readResult_gives hr]
    refine ⟨rfl, fun lines' h => ?_, fun h => ?_⟩
    · rw [hlines] at h
      cases h
      rfl
    · rw [hlines] at h
      cases h

/-! ### The parser's start -/

/-- Where there is a line to get, the marker does not matter. -/
lemma getLineFrom_got (s : ParserState) (b : Bool) (h : HasText d lines) :
    d.getLineFrom lines { s with got_anything := b } = d.getLineFrom lines s := by
  induction lines generalizing s with
  | nil =>
    obtain ⟨line, hline, -⟩ := h
    cases hline
  | cons line lines ih =>
    rw [Description.getLineFrom, Description.getLineFrom]
    split
    next hskips =>
      refine ih { s with nextLine := s.nextLine + 1 } ?_
      obtain ⟨line', hline', htext⟩ := h
      rcases List.mem_cons.mp hline' with rfl | hline'
      · rw [hskips] at htext
        cases htext
      · exact ⟨line', hline', htext⟩
    · rfl

lemma parseLines_got (s : ParserState) (hs : s.nextLine = 0) (b : Bool) (h : HasText a.toDescription lines) (n : ℕ) :
    a.parseLines lines { s with got_anything := b } n = a.parseLines lines s n := by
  cases n with
  | zero => rfl
  | succ n =>
    have hnext : a.nextText lines (some ⟨0, []⟩) { s with got_anything := b } = a.nextText lines (some ⟨0, []⟩) s := by
      have hdrop : lines.drop s.nextLine = lines := by rw [hs, List.drop_zero]
      change a.getLine lines { s with got_anything := b } = a.getLine lines s
      rw [Description.getLine, Description.getLine, hdrop]
      exact getLineFrom_got s b h
    rw [Agent.parseLines, Agent.parseLines, Description.parseData, Description.parseData, hnext]

/-- From states that resemble each other the parser gives the same value. -/
lemma parseLines_related (h : Resembles a answer start st) (hlines : (readFile answer start).1 = some lines) (n : ℕ) :
    Related (fun r r' => r'.value = r.value) (a.parseLines lines start.start n) (a.parseLines lines st.start n) := by
  have hgot : a.parseLines lines st.start n =
      a.parseLines lines { st.start with got_anything := start.got_anything } n := by
    rcases h.got_anything with ⟨lines', hlines', htext⟩ | hsame
    · rw [hlines] at hlines'
      cases hlines'
      exact (parseLines_got st.start rfl start.got_anything htext n).symm
    · rw [← hsame]
      rfl
  rw [hgot]
  rcases h.currentMatch with hactions | hsame
  · have halike : Alike false false start.start { st.start with got_anything := start.got_anything } :=
      ⟨rfl, rfl, rfl, fun h => (by cases h), fun h => by cases h⟩
    exact (parseData_alike n false a.mSyntax (fun _ => hactions) _ _ _ _ _ halike).mono fun _ _ hr => hr.value
  · have halike : Alike true false start.start { st.start with got_anything := start.got_anything } :=
      ⟨rfl, rfl, rfl, fun _ => hsame, fun h => by cases h⟩
    exact (parseData_alike n true a.mSyntax (fun h => by cases h) _ _ _ _ _ halike).mono fun _ _ hr => hr.value

lemma read_related (path : List Text) (h : Resembles a answer start st)
    (hfile : (readFile answer st).1 = (readFile answer start).1) (n : ℕ) :
    Related (fun p q => q.1 = p.1) (a.read answer n path start) (a.read answer n path st) := by
  cases hlines : (readFile answer start).1 with
  | none =>
    rw [read_of_none hlines, read_of_none (hfile.trans hlines)]
    exact .gives rfl
  | some lines =>
    rw [read_of_some hlines, read_of_some (hfile.trans hlines)]
    refine (parseLines_related h hlines n).bind fun r r' hr => ?_
    unfold readResult
    rw [hr]
    refine .ite (fun _ => .gives rfl) fun _ => ?_
    split
    · exact .gives rfl
    · exact .undefined

/-- A `Read` that starts like another one returns the same. -/
lemma Reads.resembled {v : YCPValue} (h : Reads a answer path st v st') (hresembles : Resembles a answer start st)
    (hfile : (readFile answer st).1 = (readFile answer start).1) : ∃ next, Reads a answer path start v next := by
  obtain ⟨n, hn⟩ := h.gives
  have hrelated := read_related path hresembles hfile n
  rw [hn] at hrelated
  obtain ⟨⟨w, next⟩, hnext, rfl⟩ := hrelated.swap.exists_of_gives
  exact ⟨next, reads_of_gives hnext⟩

lemma Reads.resembling {v : YCPValue} (h : Reads a answer path start v st') (hresembles : Resembles a answer start st)
    (hfile : (readFile answer st).1 = (readFile answer start).1) : ∃ next, Reads a answer path st v next := by
  obtain ⟨n, hn⟩ := h.gives
  have hrelated := read_related path hresembles hfile n
  rw [hn] at hrelated
  obtain ⟨⟨w, next⟩, hnext, rfl⟩ := hrelated.exists_of_gives
  exact ⟨next, reads_of_gives hnext⟩

lemma Reads.value_unique {v w : YCPValue} {next : AgentState} (h : Reads a answer path st v st')
    (h' : Reads a answer path st w next) : v = w := by
  have hsame := h.unique h'
  cases hsame
  rfl

/-! ### The runs -/

lemma RepeatedReads.readFile_eq {values : List YCPValue} (h : RepeatedReads a answer path start st values) :
    (readFile answer st).1 = (readFile answer start).1 := by
  induction h with
  | first => rfl
  | again before resembles run ih => exact (reads_took run).readFile_eq.trans ih

/-- All values are what the first `Read` returns. -/
lemma RepeatedReads.returns {values : List YCPValue} (h : RepeatedReads a answer path start st values) :
    ∀ v ∈ values, ∃ next, Reads a answer path start v next := by
  induction h with
  | first =>
    intro v hv
    cases hv
  | again before resembles run ih =>
    intro w hw
    rcases List.mem_append.mp hw with hw | hw
    · exact ih w hw
    · rw [List.mem_singleton.mp hw]
      exact run.resembled resembles before.readFile_eq

end

/-! ### Two files -/

def skipAgent : Agent := { plainDescription with mSyntax := term (ascii "Skip") [] }

/-- A file with one line. -/
def oneLine : FileAnswer := .opens 1 (ascii "a\n")

end YastCore.AnyAgent
