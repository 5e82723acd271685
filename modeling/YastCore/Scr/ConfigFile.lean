import YastCore.Lib.Lines
import YastCore.Scr.Agents

/-!
# Registration files

How `ScriptingAgent::parseSingleConfigFile` reads the content of a `.scr` file: in the pieces that a buffer
of 250 characters holds, and every piece loses its last character.
-/

namespace YastCore.Scr

open Lines

/-- `'.'` -/
def dotChar : UInt8 := 46

/-- The size of `line`. -/
def lineSize : ℕ := 250

/-- `line` after its last character is deleted, as the C string that it is. -/
def deleteLast (line : Text) : Text := (cut line).dropLast

/-- The first part that something is taken of, with its offset in the file. -/
def firstOf (take : Text → Option Text) : ℕ → List Text → Option (ℕ × Text)
  | _, [] => none
  | k, part :: parts =>
    match take part with
    | some text => some (k, text)
    | none => firstOf take (k + part.length) parts

/-- The body of the loop over `fgets`, as far as the text of the path. -/
def takePiece (line : Text) : Option Text :=
  if (deleteLast line).head? = some dotChar then some (deleteLast line) else none

/-- Where the loop finds the text of the path in a file with this content. -/
def takenLine (content : Text) : Option (ℕ × Text) := firstOf takePiece 0 (pieces (lineSize - 1) [] content)

/-- The agent after it has read the path in this text; none if the constructor reads behind the text. -/
def registerPath (dir : RegistrationDir) (name : Text) (s : ScriptingAgent) : Option Text → Option ScriptingAgent
  | none => some s
  | some line => (parsePath line).map fun path => parseSingleConfigFile dir s ⟨name, path⟩

/-- `parseSingleConfigFile` of a file with this content. -/
def parseConfigContent (dir : RegistrationDir) (name content : Text) (s : ScriptingAgent) : Option ScriptingAgent :=
  registerPath dir name s ((takenLine content).map Prod.snd)

/-! ### Lines of the file -/

/-- A line without its newline. -/
def lineText (l : Text) : Text := if l.getLast? = some newline then l.dropLast else l

def takeDotLine (l : Text) : Option Text := if l.head? = some dotChar then some (lineText l) else none

/-- The first line that starts with a dot, in full, and its offset. -/
def firstDotLine (content : Text) : Option (ℕ × Text) := firstOf takeDotLine 0 (fileLines [] content)

/-- At this offset of the line stands a dot with another character behind it. -/
def DotAt (l : Text) (i : ℕ) : Prop := l[i]? = some dotChar ∧ ∃ c, l[i + 1]? = some c ∧ c ≠ 0

/-- The line fits into the buffer, with a newline and without NUL. -/
structure FitsBuffer (l : Text) : Prop where
  newline : l.getLast? = some newline
  fits : l.length < lineSize
  noNul : 0 ∉ l

/-- A piece of the line that is not its first begins with a dot. -/
def Stray (l : Text) : Prop := ∃ j, 0 < j ∧ DotAt l ((lineSize - 1) * j)

/-- No line before the first with a dot has a stray piece, and that line fits. -/
def ReadableLines : List Text → Prop
  | [] => True
  | l :: lines => if l.head? = some dotChar then FitsBuffer l else ¬ Stray l ∧ ReadableLines lines

/-! ### One line -/

section

variable {take : Text → Option Text} {k k' n i : ℕ} {l rest t part : Text} {parts parts' : List Text}

lemma firstOf_append (k : ℕ) (parts parts' : List Text) :
    firstOf take k (parts ++ parts') =
      (firstOf take k parts).or (firstOf take (k + parts.flatten.length) parts') := by
  induction parts generalizing k with
  | nil => rfl
  | cons part parts ih =>
    rw [List.cons_append, firstOf, firstOf, List.flatten_cons, List.length_append, ← Nat.add_assoc]
    cases take part with
    | some text => rfl
    | none => exact ih (k + part.length)

lemma firstOf_le (h : firstOf take k parts = some (k', t)) : k ≤ k' := by
  induction parts generalizing k with
  | nil => cases h
  | cons part parts ih =>
    rw [firstOf] at h
    cases htake : take part with
    | some text =>
      rw [htake] at h
      cases h
      exact Nat.le_refl _
    | none =>
      rw [htake] at h
      exact (Nat.le_add_right k part.length).trans (ih h)

lemma firstOf_lt (hne : [] ∉ parts) (h : firstOf take k parts = some (k', t)) : k' < k + parts.flatten.length := by
  induction parts generalizing k with
  | nil => cases h
  | cons part parts ih =>
    have hpos : 0 < part.length := List.length_pos_iff.mpr fun heq => hne (heq ▸ List.mem_cons_self)
    rw [List.flatten_cons, List.length_append]
    rw [firstOf] at h
    cases htake : take part with
    | some text =>
      rw [htake] at h
      cases h
      omega
    | none =>
      rw [htake] at h
      have hlt := ih (fun hmem => hne (List.mem_cons_of_mem part hmem)) h
      omega

/-! ### The pieces of a line -/

lemma deleteLast_head_iff : (deleteLast l).head? = some dotChar ↔ DotAt l 0 := by
  cases l with
  | nil => simp [deleteLast, cut, DotAt]
  | cons a l =>
    by_cases ha : a = 0
    · subst ha
      have hzero : (0 : UInt8) ≠ dotChar := by decide
      simp [deleteLast, cut, DotAt, hzero]
    · cases l with
      | nil => simp [deleteLast, cut, DotAt, ha]
      | cons b l =>
        by_cases hb : b = 0
        · simp [deleteLast, cut, DotAt, ha, hb]
        · simp [deleteLast, cut, DotAt, ha, hb]

lemma dotAt_drop : DotAt (l.drop n) i ↔ DotAt l (n + i) := by
  simp only [DotAt, List.getElem?_drop, Nat.add_assoc]

lemma dotAt_take (h : i + 1 < n) : DotAt (l.take n) i ↔ DotAt l i := by
  simp only [DotAt, List.getElem?_take_of_lt h, List.getElem?_take_of_lt (Nat.lt_of_succ_lt h)]

lemma takePiece_eq_none_iff : takePiece l = none ↔ ¬ DotAt l 0 := by
  rw [takePiece, ← deleteLast_head_iff]
  split
  · next h => simp [h]
  · next h => simp [h]

lemma newline_last_drop (h : newline ∉ l.dropLast) (n : ℕ) : newline ∉ (l.drop n).dropLast := by
  by_cases hnil : l.drop n = []
  · rw [hnil]
    exact List.not_mem_nil
  · intro hmem
    apply h
    rw [← List.take_append_drop n l, List.dropLast_append_of_ne_nil hnil]
    exact List.mem_append_right _ hmem

lemma pieces_cons (hne : l ≠ []) (hlast : newline ∉ l.dropLast) :
    pieces (lineSize - 1) [] l = l.take (lineSize - 1) :: pieces (lineSize - 1) [] (l.drop (lineSize - 1)) :=
  pieces_run (n := lineSize - 1) (by decide) hne hlast

lemma offset_succ (j : ℕ) : lineSize - 1 + (lineSize - 1) * j = (lineSize - 1) * (j + 1) := by
  rw [Nat.mul_succ, Nat.add_comm]

lemma firstOf_pieces_eq_none_iff (k : ℕ) (hlast : newline ∉ l.dropLast) :
    firstOf takePiece k (pieces (lineSize - 1) [] l) = none ↔ ∀ j, ¬ DotAt l ((lineSize - 1) * j) := by
  induction hm : l.length using Nat.strongRecOn generalizing k l with
  | ind m ih =>
    by_cases hne : l = []
    · subst hne
      simp [pieces, firstOf, DotAt]
    have hdrop : (l.drop (lineSize - 1)).length < m := by
      have hpos : 0 < l.length := List.length_pos_iff.mpr hne
      rw [List.length_drop, ← hm, lineSize]
      omega
    have hrest := ih _ hdrop (k + (l.take (lineSize - 1)).length) (newline_last_drop hlast _) rfl
    have hzero : DotAt (l.take (lineSize - 1)) 0 ↔ DotAt l 0 := dotAt_take (by decide)
    rw [pieces_cons hne hlast, firstOf]
    cases htake : takePiece (l.take (lineSize - 1)) with
    | some text =>
      have hdot : DotAt l 0 := by
        by_contra hnot
        rw [← hzero, ← takePiece_eq_none_iff, htake] at hnot
        cases hnot
      constructor
      · intro h
        cases h
      · intro hall
        exact absurd hdot (hall 0)
    | none =>
      rw [takePiece_eq_none_iff, hzero] at htake
      dsimp only
      rw [hrest]
      constructor
      · intro hall j
        cases j with
        | zero => exact htake
        | succ j =>
          have hj := hall j
          rwa [dotAt_drop, offset_succ] at hj
      · intro hall j
        rw [dotAt_drop, offset_succ]
        exact hall (j + 1)

/-! ### The line with the path -/

lemma FitsBuffer.take_eq (h : FitsBuffer l) : l.take (lineSize - 1) = l :=
  List.take_of_length_le (Nat.le_sub_one_of_lt h.fits)

lemma FitsBuffer.deleteLast_eq (h : FitsBuffer l) : deleteLast (l.take (lineSize - 1)) = lineText l := by
  rw [h.take_eq, deleteLast, cut_eq_self.mpr h.noNul, lineText, if_pos h.newline]

lemma fitsBuffer_of_deleteLast (hne : l ≠ []) (hdot : DotAt l 0)
    (h : deleteLast (l.take (lineSize - 1)) = lineText l) : FitsBuffer l := by
  have hpos : 0 < l.length := List.length_pos_iff.mpr hne
  have htake := List.length_take_le' (lineSize - 1) l
  have hcut := cut_length_le (l.take (lineSize - 1))
  have hlength : (cut (l.take (lineSize - 1))).length - 1 = (lineText l).length := by
    rw [← h, deleteLast, List.length_dropLast]
  have hnewline : l.getLast? = some newline := by
    by_contra hnot
    rw [lineText, if_neg hnot] at hlength
    omega
  rw [lineText, if_pos hnewline, List.length_dropLast] at hlength
  have htwo : 2 ≤ l.length := by
    obtain ⟨-, c, hc, -⟩ := hdot
    have hlt := (List.getElem?_eq_some_iff.mp hc).1
    omega
  have hlen : (l.take (lineSize - 1)).length = l.length := by omega
  have hfits : l.length < lineSize := by
    rw [List.length_take] at hlen
    have hsize : 0 < lineSize := by decide
    omega
  have hwhole : l.take (lineSize - 1) = l := List.take_of_length_le (Nat.le_sub_one_of_lt hfits)
  rw [hwhole] at hlength hcut
  have hcutlen : (cut l).length = l.length := by omega
  have hnul : cut l = l := (List.takeWhile_prefix _).eq_of_length hcutlen
  exact ⟨hnewline, hfits, cut_eq_self.mp hnul⟩

lemma FitsBuffer.dotAt (h : FitsBuffer l) (hdot : l.head? = some dotChar) : DotAt l 0 := by
  cases l with
  | nil => cases hdot
  | cons a l =>
    cases l with
    | nil =>
      have hlast := h.newline
      rw [List.getLast?_singleton] at hlast
      rw [List.head?_cons, hlast] at hdot
      exact absurd hdot (by decide)
    | cons c l =>
      refine ⟨hdot, c, rfl, fun hzero => h.noNul ?_⟩
      rw [hzero]
      simp

/-- Of the first line with a dot the text is taken in full exactly if it fits. -/
lemma firstOf_dotLine_iff (hl : IsLine l) (hdot : l.head? = some dotChar) (k : ℕ) (parts : List Text) :
    firstOf takePiece k (pieces (lineSize - 1) [] l ++ parts) = some (k, lineText l) ↔ FitsBuffer l := by
  have hzero : DotAt (l.take (lineSize - 1)) 0 ↔ DotAt l 0 := dotAt_take (by decide)
  rw [pieces_cons hl.ne_nil hl.newline_last, List.cons_append, firstOf]
  cases htake : takePiece (l.take (lineSize - 1)) with
  | some text =>
    have hat : DotAt l 0 := by
      by_contra hnot
      rw [← hzero, ← takePiece_eq_none_iff, htake] at hnot
      cases hnot
    have htext : text = deleteLast (l.take (lineSize - 1)) := by
      rw [takePiece] at htake
      split at htake
      · exact (Option.some.inj htake).symm
      · cases htake
    rw [htext]
    constructor
    · intro h
      exact fitsBuffer_of_deleteLast hl.ne_nil hat (congrArg Prod.snd (Option.some.inj h))
    · intro h
      exact congrArg (fun t => some (k, t)) h.deleteLast_eq
  | none =>
    rw [takePiece_eq_none_iff, hzero] at htake
    constructor
    · intro h
      have hle := firstOf_le h
      have hpos : 0 < (l.take (lineSize - 1)).length := by
        rw [List.length_take, lineSize]
        have hlpos : 0 < l.length := List.length_pos_iff.mpr hl.ne_nil
        omega
      omega
    · intro h
      exact absurd (h.dotAt hdot) htake

/-- A line without a dot in front is passed over exactly if no piece of it is stray. -/
lemma firstOf_line_eq_none_iff (hl : IsLine l) (hdot : l.head? ≠ some dotChar) (k : ℕ) :
    firstOf takePiece k (pieces (lineSize - 1) [] l) = none ↔ ¬ Stray l := by
  rw [firstOf_pieces_eq_none_iff k hl.newline_last, Stray]
  constructor
  · rintro hall ⟨j, -, hj⟩
    exact hall j hj
  · intro hnone j hj
    cases j with
    | zero =>
      rw [Nat.mul_zero, DotAt, ← List.head?_eq_getElem?] at hj
      exact hdot hj.1
    | succ j => exact hnone ⟨j + 1, Nat.succ_pos j, hj⟩

lemma firstOf_eq_iff (k : ℕ) (text : Text) :
    firstOf takePiece k (pieces (lineSize - 1) [] text) = firstOf takeDotLine k (fileLines [] text) ↔
      ReadableLines (fileLines [] text) := by
  induction hm : text.length using Nat.strongRecOn generalizing k text with
  | ind m ih =>
    by_cases hne : text = []
    · subst hne
      simp [pieces, fileLines, firstOf, ReadableLines]
    obtain ⟨l, rest, htext, hl, hlines, hpieces⟩ := exists_line (lineSize - 1) hne
    have hpos : 0 < l.length := List.length_pos_iff.mpr hl.ne_nil
    have hless : rest.length < m := by
      rw [← hm, htext, List.length_append]
      omega
    have hflatten : (pieces (lineSize - 1) [] l).flatten = l := flatten_pieces _ [] l
    rw [hpieces, hlines, ReadableLines, firstOf, takeDotLine]
    by_cases hdot : l.head? = some dotChar
    · rw [if_pos hdot, if_pos hdot]
      exact firstOf_dotLine_iff hl hdot k _
    · rw [if_neg hdot, if_neg hdot]
      dsimp only
      rw [firstOf_append, hflatten]
      by_cases hstray : Stray l
      · cases hfirst : firstOf takePiece k (pieces (lineSize - 1) [] l) with
        | none => exact absurd hstray ((firstOf_line_eq_none_iff hl hdot k).mp hfirst)
        | some p =>
          obtain ⟨k', t⟩ := p
          have hlt := firstOf_lt (nil_notMem_pieces _ [] l) hfirst
          rw [hflatten] at hlt
          constructor
          · intro h
            have hle := firstOf_le h.symm
            omega
          · intro h
            exact absurd hstray h.1
      · rw [(firstOf_line_eq_none_iff hl hdot k).mpr hstray, Option.none_or,
          ih rest.length hless (k + l.length) rest rfl]
        exact (and_iff_right hstray).symm

end

/-- The path is that of the first line with a dot, taken from there and in full, and there is none without
such a line. -/
def TakesFirstDotLine (content : Text) : Prop := takenLine content = firstDotLine content

/-- What the file registers. -/
def registerFirstDotLine (dir : RegistrationDir) (name content : Text) (s : ScriptingAgent) : Option ScriptingAgent :=
  registerPath dir name s ((firstDotLine content).map Prod.snd)

/-- The path is taken from the first line with a dot exactly if the lines up to it fit the buffer, and then
the file registers what that line says. -/
theorem takesFirstDotLine_iff (content : Text) :
    (TakesFirstDotLine content ↔ ReadableLines (fileLines [] content)) ∧
      (ReadableLines (fileLines [] content) → ∀ dir name s,
        parseConfigContent dir name content s = registerFirstDotLine dir name content s) := by
  have hiff : TakesFirstDotLine content ↔ ReadableLines (fileLines [] content) := firstOf_eq_iff 0 content
  refine ⟨hiff, fun h dir name s => ?_⟩
  have htaken : takenLine content = firstDotLine content := hiff.mpr h
  rw [parseConfigContent, registerFirstDotLine, htaken]

/-- `.ab` without a newline: `.a` is registered. -/
theorem not_registerFirstDotLine : ¬ ∀ (content : Text) (dir : RegistrationDir) (name : Text) (s : ScriptingAgent),
    parseConfigContent dir name content s = registerFirstDotLine dir name content s := by
  intro hall
  have heq := hall (ascii ".ab") ⟨[], []⟩ [] .start
  have hpaths := congrArg (Option.map fun s => s.agents.map fun a => a.path.map (·.component)) heq
  revert hpaths
  decide

end YastCore.Scr
