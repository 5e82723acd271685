import YastCore.AnyAgent.Alike
import YastCore.AnyAgent.Bound
import YastCore.AnyAgent.Lookup

/-!
# Reading and writing

`readFile`, `validateCache`, `Read` and the raw writes of `Write`. The system answers for the file, or for the
program, that the agent is made for.
-/

namespace YastCore.AnyAgent

open Bounded Lines Transport YCPValue

structure Agent extends Description where
  mSyntax : YCPValue

/-- What comes of the name of the file, with the time of its last change where it has one, or of running the
program. -/
inductive FileAnswer where
  | noName
  | notFound
  | noStat
  | noAccess (st_mtime : Int)
  | noOpen (st_mtime : Int)
  | opens (st_mtime : Int) (content : Text)
  | noProgram
  | runs (output : Text)

/-- What is left from call to call, in the members and in the two statics. A cache that is not marked as changed
holds a value. -/
structure AgentState where
  mtime : Int
  alldata : Option (List Text)
  cache : YCPValue
  cchanged : Bool
  got_anything : Bool
  currentMatch : YCPValue
  tupleContinue : Bool
  cached : cchanged = false → cache.isNull = false

/-- The lines as `get_line` gives them. -/
def fileData (content : Text) : List Text := (pieces 8191 [] content).map cut

/-- The agent before its first call. -/
def AgentState.fresh : AgentState where
  mtime := 0
  alldata := none
  cache := null
  cchanged := true
  got_anything := false
  currentMatch := null
  tupleContinue := false
  cached h := Bool.noConfusion h

def readFile (answer : FileAnswer) (st : AgentState) : Option (List Text) × AgentState :=
  match answer with
  | .noName => (none, st)
  | .notFound => (some [], { st with mtime := 0 })
  | .noStat => (none, { st with mtime := 0 })
  | .noAccess st_mtime => if st_mtime = st.mtime then (st.alldata, st) else (some [], st)
  | .noOpen st_mtime => if st_mtime = st.mtime then (st.alldata, st) else (none, st)
  | .opens st_mtime content =>
    if st_mtime = st.mtime then (st.alldata, st)
    else (some (fileData content), { st with mtime := st_mtime, alldata := some (fileData content) })
  | .noProgram => (none, st)
  | .runs output => (some (fileData output), { st with mtime := 0, alldata := some (fileData output) })

namespace AgentState

/-- The state of the parser, which starts before the first line and in no `Tuple`. -/
def start (st : AgentState) : ParserState where
  nextLine := 0
  got_anything := st.got_anything
  currentMatch := st.currentMatch
  tuples := []
  tupleContinue := st.tupleContinue

lemma parsed_cached (st : AgentState) (r : Parsed) (h : r.value.isNull = false) :
    (if r.value.isNull then st.cache else r.value).isNull = false := by
  rw [if_neg (Bool.eq_false_iff.mp h)]
  exact h

/-- The state after these lines are parsed. -/
def parsed (st : AgentState) (lines : List Text) (r : Parsed) : AgentState where
  mtime := st.mtime
  alldata := some lines
  cache := if r.value.isNull then st.cache else r.value
  cchanged := r.value.isNull
  got_anything := r.state.got_anything
  currentMatch := r.state.currentMatch
  tupleContinue := r.state.tupleContinue
  cached := parsed_cached st r

end AgentState

namespace Agent

/-- The parser as `validateCache` calls it, from an empty text on. -/
def parseLines (a : Agent) (lines : List Text) (s : ParserState) (n : ℕ) : Answer Parsed :=
  a.parseData lines n (some ⟨0, []⟩) a.mSyntax false s

/-- The part of `validateCache` behind the checks. -/
def parseCache (a : Agent) (n : ℕ) (lines : List Text) (st : AgentState) : Answer (YCPValue × AgentState) := do
  let r ← a.parseLines lines st.start n
  pure (r.value, st.parsed lines r)

def validateCache (a : Agent) (answer : FileAnswer) (n : ℕ) (data : Option (List Text)) (st : AgentState) :
    Answer (YCPValue × AgentState) :=
  match data with
  | none =>
    match readFile answer st with
    | (none, st) => pure (null, st)
    | (some lines, st) => a.parseCache n lines st
  | some lines => if st.cchanged then a.parseCache n lines st else pure (st.cache, st)

/-- What `Read` returns of a value and of the raw lines. -/
def readPath (value : YCPValue) (alldata : Option (List Text)) : List Text → Option YCPValue
  | [] => some value
  | s :: rest =>
    if s = ascii "_" then
      match rest, alldata with
      | [], none => some null
      | [], some lines => some (.list (lines.map string))
      | [i], some lines =>
        if begins isDigit i then
          if atoiDigits i < 0 ∨ (lines.length : Int) < atoiDigits i then some void
          else some ((lines.map string).getD (atoiDigits i).toNat null)
        else some void
      | [i], none => if begins isDigit i then none else some void
      | _, _ => some void
    else readValueByPath value (s :: rest)

def read (a : Agent) (answer : FileAnswer) (n : ℕ) (path : List Text) (st : AgentState) :
    Answer (YCPValue × AgentState) := do
  let r ← a.validateCache answer n none st
  if r.1.isNull then pure (null, r.2)
  else
    match readPath r.1 r.2.alldata path with
    | some v => pure (v, r.2)
    | none => .undefined

end Agent

/-- `Write (._, lines)` and `Write (._.<n>, line)`. -/
inductive RawWrite where
  | all (lines : List Text)
  | line (n : Text) (value : Text)

namespace Agent

/-- The raw writes hand these lines to `validateCache`. -/
def writeLines (a : Agent) (answer : FileAnswer) (n : ℕ) (lines : List Text) (st : AgentState) :
    Answer (Bool × AgentState) := do
  let r ← a.validateCache answer n (some lines) st
  pure (!r.1.isNull, r.2)

def write (a : Agent) (answer : FileAnswer) (n : ℕ) (w : RawWrite) (st : AgentState) : Answer (Bool × AgentState) :=
  if a.mReadOnly then pure (false, st)
  else
    match w with
    | .all lines => a.writeLines answer n lines st
    | .line i value =>
      if begins isDigit i then
        if atoiDigits i < 0 then pure (false, st)
        else
          match st.alldata with
          | none => .undefined
          | some data =>
            a.writeLines answer n
              (if atoiDigits i = data.length then data ++ [value] else data.set (atoiDigits i).toNat value) st
      else pure (false, st)

end Agent

/-- A call of `Read` returns. -/
def Reads (a : Agent) (answer : FileAnswer) (path : List Text) (st : AgentState) (v : YCPValue) (st' : AgentState) :
    Prop :=
  Settles (fun n => a.read answer n path st) (.gives (v, st'))

/-- A call of `Write` for raw lines returns. -/
def Writes (a : Agent) (answer : FileAnswer) (w : RawWrite) (st : AgentState) (b : Bool) (st' : AgentState) : Prop :=
  Settles (fun n => a.write answer n w st) (.gives (b, st'))

section

variable {a : Agent} {answer : FileAnswer} {path : List Text} {w : RawWrite} {v : YCPValue} {b : Bool}
  {st st' : AgentState}

lemma validateCache_extends (a : Agent) (answer : FileAnswer) (n : ℕ) (data : Option (List Text)) (st : AgentState) :
    Extends (a.validateCache answer n data st) (a.validateCache answer (n + 1) data st) := by
  have hparse : ∀ lines st, Extends (a.parseCache n lines st) (a.parseCache (n + 1) lines st) := by
    intro lines st
    exact (parseData_extends _ lines n _ _ _ _).bind fun _ => .refl _
  cases data with
  | none =>
    rw [Agent.validateCache, Agent.validateCache]
    cases readFile answer st with
    | mk filedata st₁ =>
      cases filedata with
      | none => exact .refl _
      | some lines => exact hparse lines st₁
  | some lines => exact .ite (hparse lines st) (.refl _)

lemma writeLines_extends (a : Agent) (answer : FileAnswer) (n : ℕ) (lines : List Text) (st : AgentState) :
    Extends (a.writeLines answer n lines st) (a.writeLines answer (n + 1) lines st) :=
  (validateCache_extends a answer n _ st).bind fun _ => .refl _

/-- One bound within which a call returns is enough. -/
lemma reads_of_gives {n : ℕ} (h : a.read answer n path st = .gives (v, st')) : Reads a answer path st v st' := by
  refine settles_of_extends (fun n => ?_) h
  exact (validateCache_extends a answer n none st).bind fun _ => .refl _

lemma writes_of_gives {n : ℕ} (h : a.write answer n w st = .gives (b, st')) : Writes a answer w st b st' := by
  refine settles_of_extends (fun n => ?_) h
  refine .ite (.refl _) ?_
  cases w with
  | all lines => exact writeLines_extends a answer n lines st
  | line i value =>
    refine .ite (.ite (.refl _) ?_) (.refl _)
    cases st.alldata with
    | none => exact .refl _
    | some data => exact writeLines_extends a answer n _ st

lemma Reads.gives (h : Reads a answer path st v st') : ∃ n, a.read answer n path st = .gives (v, st') := by
  obtain ⟨-, n, hn⟩ := h
  exact ⟨n, hn n (Nat.le_refl n)⟩

lemma Writes.gives (h : Writes a answer w st b st') : ∃ n, a.write answer n w st = .gives (b, st') := by
  obtain ⟨-, n, hn⟩ := h
  exact ⟨n, hn n (Nat.le_refl n)⟩

end

end YastCore.AnyAgent
