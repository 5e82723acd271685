import YastCore.AnyAgent.Repeated

/-!
# Raw writes

`Write (._, lines)` and `Write (._.<n>, line)` hand lines to `validateCache`, which takes them only where the cache
is marked as changed. Then they are kept, whether they parse or not.
-/

namespace YastCore.AnyAgent

open Bounded Lines Transport YCPValue

namespace RawWrite

/-- What the lines are to be: all of these, or the old ones with one of them replaced or with one appended. -/
def written (w : RawWrite) (old : Option (List Text)) : Option (List Text) :=
  match w with
  | .all lines => some lines
  | .line i value => old.bind fun data =>
    if atoiDigits i = data.length then some (data ++ [value])
    else if atoiDigits i < data.length then some (data.set (atoiDigits i).toNat value)
    else none

/-- The lines that `validateCache` gets, unless the write is refused before. -/
def handed (a : Agent) (w : RawWrite) (st : AgentState) : Option (List Text) :=
  if a.mReadOnly then none
  else
    match w with
    | .all lines => some lines
    | .line i value =>
      if begins isDigit i then
        if atoiDigits i < 0 then none
        else st.alldata.map fun data =>
          if atoiDigits i = data.length then data ++ [value] else data.set (atoiDigits i).toNat value
      else none

end RawWrite

/-- The next `Read` takes these lines, and they parse. -/
def ReadsBack (a : Agent) (answer : FileAnswer) (lines : List Text) (st : AgentState) : Prop :=
  (readFile answer st).1 = some lines ∧ ∃ n r, a.parseLines lines st.start n = .gives r ∧ r.value.isNull = false

/-- If the write returns true the next `Read (._)` returns the lines that are written, and if it returns false the
lines are those from before. -/
structure TakesEffect (a : Agent) (answer : FileAnswer) (w : RawWrite) (st : AgentState) : Prop where
  returnsTrue : ∀ st', Writes a answer w st true st' → ∃ lines next, w.written st.alldata = some lines ∧
    Reads a answer [ascii "_"] st' (list (lines.map string)) next
  returnsFalse : ∀ st', Writes a answer w st false st' → st'.alldata = st.alldata

/-- With a valid cache, the lines are there already. Otherwise they are those to write, they stay for the next
`Read` and parse again, or they do not parse and are there already. -/
structure Effective (a : Agent) (answer : FileAnswer) (w : RawWrite) (st : AgentState) : Prop where
  valid : ∀ lines, w.handed a st = some lines → st.cchanged = false →
    w.written st.alldata = some lines ∧ ReadsBack a answer lines st
  parsed : ∀ lines n r, w.handed a st = some lines → st.cchanged = true →
    a.parseLines lines st.start n = .gives r → r.value.isNull = false →
      w.written st.alldata = some lines ∧ ReadsBack a answer lines (st.parsed lines r)
  failed : ∀ lines n r, w.handed a st = some lines → st.cchanged = true →
    a.parseLines lines st.start n = .gives r → r.value.isNull = true → st.alldata = some lines

/-- What a raw write does. -/
inductive WriteStep (a : Agent) (w : RawWrite) (st : AgentState) : Bool → AgentState → Prop where
  | refused (handed : w.handed a st = none) : WriteStep a w st false st
  | valid {lines : List Text} (handed : w.handed a st = some lines) (valid : st.cchanged = false) :
    WriteStep a w st true st
  | parsed {lines : List Text} {n : ℕ} {r : Parsed} (handed : w.handed a st = some lines)
      (changed : st.cchanged = true) (parse : a.parseLines lines st.start n = .gives r) :
    WriteStep a w st (!r.value.isNull) (st.parsed lines r)

/-- A raw write that has returned true, with the states before and after it. -/
structure LastWrite where
  before : AgentState
  w : RawWrite
  after : AgentState

/-- Calls of `Read` and raw writes one after the other, and the last write that has returned true. -/
inductive RawRun (a : Agent) (answer : FileAnswer) (start : AgentState) : AgentState → Option LastWrite → Prop where
  | start : RawRun a answer start start none
  | read {st st' : AgentState} {last : Option LastWrite} {path : List Text} {v : YCPValue}
      (before : RawRun a answer start st last) (run : Reads a answer path st v st') : RawRun a answer start st' last
  | wrote {st st' : AgentState} {last : Option LastWrite} {w : RawWrite} (before : RawRun a answer start st last)
      (effective : Effective a answer w st) (run : Writes a answer w st true st') :
    RawRun a answer start st' (some ⟨st, w, st'⟩)
  | refused {st st' : AgentState} {last : Option LastWrite} {w : RawWrite} (before : RawRun a answer start st last)
      (effective : Effective a answer w st) (run : Writes a answer w st false st') : RawRun a answer start st' last

section

variable {a : Agent} {answer : FileAnswer} {w : RawWrite} {start st st' : AgentState} {lines : List Text}

/-! ### One write -/

/-- The lines to write are handed over, if there are any. -/
lemma written_of_handed {lines' : List Text} (h : w.handed a st = some lines)
    (hwritten : w.written st.alldata = some lines') : w.written st.alldata = some lines := by
  unfold RawWrite.handed at h
  split at h
  · cases h
  cases w with
  | all _ => exact h
  | line i value =>
    dsimp only at h
    split at h
    · split at h
      · cases h
      · cases hdata : st.alldata with
        | none =>
          rw [hdata] at h
          cases h
        | some data =>
          rw [hdata, Option.map_some, Option.some.injEq] at h
          rw [hdata] at hwritten
          subst h
          rw [RawWrite.written, Option.bind_some] at hwritten ⊢
          split
          · rfl
          next hne =>
            rw [if_neg hne] at hwritten
            split
            · rfl
            next hlt =>
              rw [if_neg hlt] at hwritten
              cases hwritten
    · cases h

lemma writeLines_valid (h : st.cchanged = false) (n : ℕ) : a.writeLines answer n lines st = .gives (true, st) := by
  rw [Agent.writeLines, Agent.validateCache, h, if_neg Bool.false_ne_true, pure_eq, gives_bind, pure_eq, st.cached h]
  rfl

lemma writeLines_changed (h : st.cchanged = true) (n : ℕ) :
    a.writeLines answer n lines st =
      a.parseLines lines st.start n >>= fun r => pure (!r.value.isNull, st.parsed lines r) := by
  rw [Agent.writeLines, Agent.validateCache, h, if_pos rfl, Agent.parseCache]
  cases a.parseLines lines st.start n with
  | pending => rfl
  | gives r => rfl
  | undefined => rfl

lemma write_handed (h : w.handed a st = some lines) (n : ℕ) :
    a.write answer n w st = a.writeLines answer n lines st := by
  unfold RawWrite.handed at h
  unfold Agent.write
  split at h
  · cases h
  next hwritable =>
    rw [if_neg hwritable]
    cases w with
    | all _ =>
      cases h
      rfl
    | line i value =>
      dsimp only at h ⊢
      split at h
      next hdigit =>
        rw [if_pos hdigit]
        split at h
        · cases h
        next hpos =>
          rw [if_neg hpos]
          cases hdata : st.alldata with
          | none =>
            rw [hdata] at h
            cases h
          | some data =>
            rw [hdata, Option.map_some, Option.some.injEq] at h
            dsimp only
            rw [h]
      · cases h

/-- What is refused returns false, if there are lines at all. -/
lemma write_refused (answer : FileAnswer) (h : w.handed a st = none) (n : ℕ) :
    a.write answer n w st = .gives (false, st) ∨ a.write answer n w st = .undefined := by
  unfold RawWrite.handed at h
  unfold Agent.write
  split at h
  next hreadOnly => exact .inl (if_pos hreadOnly)
  next hwritable =>
    rw [if_neg hwritable]
    cases w with
    | all _ => cases h
    | line i value =>
      dsimp only at h ⊢
      split at h
      next hdigit =>
        rw [if_pos hdigit]
        split at h
        next hneg => exact .inl (if_pos hneg)
        next hpos =>
          rw [if_neg hpos]
          rw [Option.map_eq_none_iff] at h
          rw [h]
          exact .inr rfl
      next hdigit => exact .inl (if_neg hdigit)

lemma Writes.step {b : Bool} (h : Writes a answer w st b st') : WriteStep a w st b st' := by
  obtain ⟨n, hn⟩ := h.gives
  cases hlines : w.handed a st with
  | none =>
    rcases write_refused answer hlines n with hfalse | hundefined
    · rw [hfalse] at hn
      cases hn
      exact .refused hlines
    · rw [hundefined] at hn
      cases hn
  | some lines =>
    rw [write_handed hlines] at hn
    cases hchanged : st.cchanged with
    | false =>
      rw [writeLines_valid hchanged] at hn
      cases hn
      exact .valid hlines hchanged
    | true =>
      rw [writeLines_changed hchanged] at hn
      obtain ⟨r, hr, hgives⟩ := bind_gives_iff.mp hn
      cases hgives
      exact .parsed hlines hchanged hr

lemma writes_valid (h : w.handed a st = some lines) (hvalid : st.cchanged = false) : Writes a answer w st true st :=
  writes_of_gives (n := 0) ((write_handed h 0).trans (writeLines_valid hvalid 0))

lemma writes_changed (answer : FileAnswer) {n : ℕ} {r : Parsed} (h : w.handed a st = some lines)
    (hchanged : st.cchanged = true) (hr : a.parseLines lines st.start n = .gives r) :
    Writes a answer w st (!r.value.isNull) (st.parsed lines r) := by
  refine writes_of_gives (n := n) ?_
  rw [write_handed h, writeLines_changed hchanged, hr]
  rfl

lemma WriteStep.mtime {b : Bool} (h : WriteStep a w st b st') : st'.mtime = st.mtime := by
  cases h with
  | refused handed => rfl
  | valid handed valid => rfl
  | parsed handed changed parse => rfl

/-! ### The next read -/

/-- What `Read (._)` returns. -/
lemma reads_raw_iff :
    (∃ next, Reads a answer [ascii "_"] st (list (lines.map string)) next) ↔ ReadsBack a answer lines st := by
  constructor
  · rintro ⟨next, h⟩
    obtain ⟨n, hn⟩ := h.gives
    cases hlines : (readFile answer st).1 with
    | none =>
      rw [read_of_none hlines] at hn
      cases hn
    | some data =>
      rw [read_of_some hlines] at hn
      obtain ⟨r, hr, hgives⟩ := bind_gives_iff.mp hn
      unfold readResult at hgives
      split at hgives
      · cases hgives
      next hnull =>
        have hraw : Agent.readPath r.value (some data) [ascii "_"] = some (list (data.map string)) := rfl
        rw [hraw] at hgives
        injection hgives with hpair
        injection hpair with hlist
        injection hlist with hlist
        have hinjective : Function.Injective string := by
          intro s t hst
          injection hst
        rw [List.map_injective_iff.mpr hinjective hlist] at hlines hr
        exact ⟨hlines, n, r, hr, Bool.eq_false_iff.mpr hnull⟩
  · rintro ⟨hlines, n, r, hr, hnull⟩
    refine ⟨(readFile answer st).2.parsed lines r, reads_of_gives (n := n) ?_⟩
    rw [read_of_some hlines, hr, gives_bind, readResult, if_neg (Bool.eq_false_iff.mp hnull)]
    rfl

/-- What a write that takes effect has written, if it returns true. -/
lemma TakesEffect.back (h : TakesEffect a answer w st) (hlines : w.handed a st = some lines)
    (hwrites : Writes a answer w st true st') :
    w.written st.alldata = some lines ∧ ReadsBack a answer lines st' := by
  obtain ⟨lines', next, hwritten, hnext⟩ := h.returnsTrue st' hwrites
  have hsame := written_of_handed hlines hwritten
  rw [hsame] at hwritten
  cases hwritten
  exact ⟨hsame, reads_raw_iff.mp ⟨next, hnext⟩⟩

lemma TakesEffect.effective (h : TakesEffect a answer w st) : Effective a answer w st := by
  constructor
  · intro lines hlines hvalid
    exact h.back hlines (writes_valid hlines hvalid)
  · intro lines n r hlines hchanged hr hnull
    have hwrites := writes_changed answer hlines hchanged hr
    rw [hnull] at hwrites
    exact h.back hlines hwrites
  · intro lines n r hlines hchanged hr hnull
    have hwrites := writes_changed answer hlines hchanged hr
    rw [hnull] at hwrites
    exact (h.returnsFalse _ hwrites).symm

/-- The lines that an effective write returns true for. -/
lemma Effective.back (h : Effective a answer w st) (hwrites : Writes a answer w st true st') :
    ∃ lines, w.written st.alldata = some lines ∧ ReadsBack a answer lines st' := by
  have hstep := hwrites.step
  generalize hb : true = b at hstep
  cases hstep with
  | refused hlines => cases hb
  | @valid lines hlines hvalid => exact ⟨lines, h.valid lines hlines hvalid⟩
  | @parsed lines n r hlines hchanged hr =>
    have hnull : r.value.isNull = false := by simpa using hb.symm
    exact ⟨lines, h.parsed lines n r hlines hchanged hr hnull⟩

lemma Effective.keeps (h : Effective a answer w st) (hwrites : Writes a answer w st false st') :
    st'.alldata = st.alldata := by
  have hstep := hwrites.step
  generalize hb : false = b at hstep
  cases hstep with
  | refused hlines => rfl
  | valid hlines hvalid => cases hb
  | @parsed lines n r hlines hchanged hr =>
    have hnull : r.value.isNull = true := by simpa using hb.symm
    exact (h.failed lines n r hlines hchanged hr hnull).symm

/-- A raw write takes effect just where it is effective. -/
lemma takesEffect_iff : TakesEffect a answer w st ↔ Effective a answer w st := by
  refine ⟨TakesEffect.effective, fun h => ⟨fun st' hwrites => ?_, fun st' hwrites => h.keeps hwrites⟩⟩
  obtain ⟨lines, hwritten, hback⟩ := h.back hwrites
  obtain ⟨next, hnext⟩ := reads_raw_iff.mpr hback
  exact ⟨lines, next, hwritten, hnext⟩

/-! ### The runs -/

/-- Until the next write that returns true, a `Read` takes the lines of the last one. -/
lemma RawRun.takes {last : Option LastWrite} (h : RawRun a answer start st last) :
    ∀ l, last = some l → ∃ lines, l.w.written l.before.alldata = some lines ∧ ReadsBack a answer lines l.after ∧
      (readFile answer st).1 = some lines := by
  induction h with
  | start =>
    intro l hl
    cases hl
  | read before run ih =>
    intro l hl
    obtain ⟨lines, hwritten, hback, hfile⟩ := ih l hl
    exact ⟨lines, hwritten, hback, (reads_took run).readFile_eq.trans hfile⟩
  | wrote before effective run ih =>
    intro l hl
    cases hl
    obtain ⟨lines, hwritten, hback⟩ := effective.back run
    exact ⟨lines, hwritten, hback, hback.1⟩
  | refused before effective run ih =>
    intro l hl
    obtain ⟨lines, hwritten, hback, hfile⟩ := ih l hl
    exact ⟨lines, hwritten, hback, (readFile_congr run.step.mtime (effective.keeps run)).trans hfile⟩

end

/-! ### Two files -/

/-- The text of the line is `a`. -/
def lineAgent : Agent := { plainDescription with mReadOnly := false, mSyntax := string (ascii "a") }

lemma parseLines_lineAgent (st : AgentState) (n : ℕ) (r : Parsed)
    (h : lineAgent.parseLines [ascii "a"] st.start n = .gives r) :
    r = ⟨string (ascii "a"), some ⟨0, []⟩, { st.start with nextLine := 1, got_anything := true }⟩ := by
  cases n with
  | zero => cases h
  | succ n =>
    cases h
    rfl

lemma effective_lineAgent {st : AgentState} (hchanged : st.cchanged = true) (hmtime : st.mtime = 1) :
    Effective lineAgent (.opens 1 (ascii "b")) (.all [ascii "a"]) st := by
  constructor
  · intro lines hlines hvalid
    rw [hchanged] at hvalid
    cases hvalid
  · intro lines n r hlines _ hr hnull
    cases hlines
    have hkept : (st.parsed [ascii "a"] r).mtime = 1 := hmtime
    refine ⟨rfl, ?_, 1, _, rfl, rfl⟩
    rw [readFile, if_pos hkept.symm]
    rfl
  · intro lines n r hlines _ hr hnull
    cases hlines
    rw [parseLines_lineAgent st n r hr] at hnull
    cases hnull

end YastCore.AnyAgent
