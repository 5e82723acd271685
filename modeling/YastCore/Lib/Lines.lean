import Mathlib.Data.List.Basic
import Mathlib.Data.List.Infix
import Mathlib.Data.List.TakeWhile
import Mathlib.Tactic.Common

/-!
# Lines and words of texts

Texts are lists of bytes. A file is read in the pieces that `fgets` gives, and a line is split at its
whitespace.
-/

namespace YastCore.Lines

/-- The bytes of a literal. -/
def ascii (s : String) : List UInt8 := s.toList.map fun c => UInt8.ofNat c.toNat

def newline : UInt8 := 10

/-- `isspace` in the C locale. -/
def isspace (c : UInt8) : Bool := c == 32 || (9 ≤ c && c ≤ 13)

/-- The results of `fgets` with room for `n` characters, where `current` is already read of the first
of them. -/
def pieces (n : Nat) (current : List UInt8) : List UInt8 → List (List UInt8)
  | [] => if current = [] then [] else [current]
  | c :: text =>
    if c = newline ∨ current.length + 1 = n then (current ++ [c]) :: pieces n [] text
    else pieces n (current ++ [c]) text

/-- The lines of a text, each with its newline, where `current` is already read of the first of them. -/
def fileLines (current : List UInt8) : List UInt8 → List (List UInt8)
  | [] => if current = [] then [] else [current]
  | c :: text => if c = newline then (current ++ [c]) :: fileLines [] text else fileLines (current ++ [c]) text

/-- The words of a text, where `word` is already read of the first of them. There are none where the
last word is not followed by whitespace. -/
def words (word : List UInt8) : List UInt8 → Option (List (List UInt8))
  | [] => if word = [] then some [] else none
  | c :: text =>
    if isspace c then
      if word = [] then words [] text else (words [] text).map (word :: ·)
    else words (word ++ [c]) text

/-- Up to the first whitespace. -/
def firstWord (text : List UInt8) : List UInt8 := text.takeWhile fun c => !isspace c

/-- From the first whitespace on. -/
def nextWhitespace (text : List UInt8) : List UInt8 := text.dropWhile fun c => !isspace c

def eatWhitespaces (text : List UInt8) : List UInt8 := text.dropWhile isspace

/-- The words that whitespace separates. -/
def spaceWords (text : List UInt8) : List (List UInt8) := (text.splitOnP isspace).filter (· ≠ [])

/-- The last word is not followed by whitespace. -/
def lastOpen (text : List UInt8) : Bool := text.getLast?.any fun c => !isspace c

/-! ### Reading lines -/

lemma pieces_line {n : Nat} {current line : List UInt8} (text : List UInt8)
    (hline : newline ∉ line) (hfits : current.length + line.length < n) :
    pieces n current (line ++ newline :: text) = (current ++ line ++ [newline]) :: pieces n [] text := by
  induction line generalizing current with
  | nil =>
    rw [List.nil_append, pieces, if_pos (Or.inl rfl), List.append_nil]
  | cons c line ih =>
    have hc : c ≠ newline := fun heq => hline (heq ▸ List.mem_cons_self)
    have hrest : newline ∉ line := fun hmem => hline (List.mem_cons_of_mem c hmem)
    rw [List.length_cons] at hfits
    have hroom : ¬ (c = newline ∨ current.length + 1 = n) := by
      rintro (heq | heq)
      · exact hc heq
      · omega
    rw [List.cons_append, pieces, if_neg hroom, ih hrest]
    · simp
    · rw [List.length_append, List.length_singleton]
      omega

/-- A line of a file: it has a newline at most at its end. -/
structure IsLine (l : List UInt8) : Prop where
  ne_nil : l ≠ []
  newline_last : newline ∉ l.dropLast

lemma fileLines_append_newline {current line : List UInt8} (text : List UInt8) (hline : newline ∉ line) :
    fileLines current (line ++ newline :: text) = (current ++ line ++ [newline]) :: fileLines [] text := by
  induction line generalizing current with
  | nil => rw [List.nil_append, fileLines, if_pos rfl, List.append_nil]
  | cons c line ih =>
    have hc : c ≠ newline := fun heq => hline (heq ▸ List.mem_cons_self)
    have hrest : newline ∉ line := fun hmem => hline (List.mem_cons_of_mem c hmem)
    rw [List.cons_append, fileLines, if_neg hc, ih hrest]
    simp

lemma fileLines_last {current line : List UInt8} (hline : newline ∉ line) (hne : current ++ line ≠ []) :
    fileLines current line = [current ++ line] := by
  induction line generalizing current with
  | nil =>
    rw [List.append_nil] at hne ⊢
    rw [fileLines, if_neg hne]
  | cons c line ih =>
    have hc : c ≠ newline := fun heq => hline (heq ▸ List.mem_cons_self)
    have hrest : newline ∉ line := fun hmem => hline (List.mem_cons_of_mem c hmem)
    rw [fileLines, if_neg hc, ih hrest (by simp)]
    simp

lemma pieces_append_newline (n : Nat) {current line : List UInt8} (text : List UInt8) :
    pieces n current (line ++ newline :: text) =
      pieces n current (line ++ [newline]) ++ pieces n [] text := by
  induction line generalizing current with
  | nil => simp [pieces]
  | cons c line ih =>
    rw [List.cons_append, List.cons_append, pieces, pieces]
    split
    · rw [ih, List.cons_append]
    · exact ih

lemma flatten_pieces (n : Nat) (current text : List UInt8) : (pieces n current text).flatten = current ++ text := by
  induction text generalizing current with
  | nil =>
    rw [pieces]
    split
    · next h => rw [h]; rfl
    · simp
  | cons c text ih =>
    rw [pieces]
    split
    · rw [List.flatten_cons, ih]
      simp
    · rw [ih]
      simp

lemma nil_notMem_pieces (n : Nat) (current text : List UInt8) : [] ∉ pieces n current text := by
  induction text generalizing current with
  | nil =>
    rw [pieces]
    split
    · simp
    · next h => simpa using fun heq : current = [] => h heq
  | cons c text ih =>
    rw [pieces]
    split
    · rw [List.mem_cons, not_or]
      exact ⟨by simp, ih []⟩
    · exact ih (current ++ [c])

/-- A text that is not empty is a line and what follows it. -/
lemma exists_line (n : Nat) {text : List UInt8} (hne : text ≠ []) :
    ∃ l rest, text = l ++ rest ∧ IsLine l ∧ fileLines [] text = l :: fileLines [] rest ∧
      pieces n [] text = pieces n [] l ++ pieces n [] rest := by
  have hwhole : text = text.takeWhile (· ≠ newline) ++ text.dropWhile (· ≠ newline) :=
    List.takeWhile_append_dropWhile.symm
  have hline : newline ∉ text.takeWhile (· ≠ newline) := fun hmem => by
    have hp := List.mem_takeWhile_imp hmem
    simp at hp
  generalize text.takeWhile (· ≠ newline) = line at hwhole hline
  cases hrest : text.dropWhile (· ≠ newline) with
  | nil =>
    rw [hrest, List.append_nil] at hwhole
    refine ⟨text, [], (List.append_nil text).symm, ⟨hne, ?_⟩, ?_, ?_⟩
    · rw [hwhole]
      exact fun hmem => hline (List.mem_of_mem_dropLast hmem)
    · have hnone : newline ∉ text := by
        rw [hwhole]
        exact hline
      rw [fileLines_last hnone (by simpa using hne)]
      rfl
    · simp [pieces]
  | cons c rest =>
    have hc : c = newline := by
      have hhead := List.head?_dropWhile_not (· ≠ newline) text
      rw [hrest] at hhead
      simpa using hhead
    subst hc
    rw [hrest] at hwhole
    refine ⟨line ++ [newline], rest, ?_, ⟨by simp, ?_⟩, ?_, ?_⟩
    · rw [hwhole, List.append_assoc, List.singleton_append]
    · rw [List.dropLast_concat]
      exact hline
    · rw [hwhole, fileLines_append_newline rest hline]
      rfl
    · rw [hwhole, pieces_append_newline]

/-- A line is read in pieces of `n` characters. -/
lemma pieces_run {n : Nat} {current l : List UInt8} (hroom : current.length < n) (hne : current ++ l ≠ [])
    (hlast : newline ∉ l.dropLast) :
    pieces n current l =
      (current ++ l.take (n - current.length)) :: pieces n [] (l.drop (n - current.length)) := by
  induction l generalizing current with
  | nil =>
    rw [List.append_nil] at hne
    rw [pieces, if_neg hne]
    simp [pieces]
  | cons c l ih =>
    obtain ⟨m, hm⟩ : ∃ m, n - current.length = m + 1 := ⟨n - current.length - 1, by omega⟩
    rw [pieces, hm, List.take_succ_cons, List.drop_succ_cons]
    by_cases hc : c = newline
    · have hnil : l = [] := by
        by_contra hl
        refine hlast ?_
        rw [List.dropLast_cons_of_ne_nil hl, hc]
        exact List.mem_cons_self
      rw [if_pos (Or.inl hc), hnil]
      simp
    by_cases hfull : current.length + 1 = n
    · have hzero : m = 0 := by omega
      rw [if_pos (Or.inr hfull), hzero, List.take_zero, List.drop_zero]
    · have hl : newline ∉ l.dropLast := by
        cases l with
        | nil => simp
        | cons d l =>
          rw [List.dropLast_cons_of_ne_nil (List.cons_ne_nil d l)] at hlast
          exact fun hmem => hlast (List.mem_cons_of_mem c hmem)
      have hlength : (current ++ [c]).length = current.length + 1 := by simp
      rw [if_neg (fun h => h.elim hc hfull), ih (by omega) (by simp) hl, hlength,
        show n - (current.length + 1) = m by omega]
      simp

/-! ### Reading words -/

lemma words_append {word part : List UInt8} (text : List UInt8)
    (hpart : ∀ c ∈ part, isspace c = false) : words word (part ++ text) = words (word ++ part) text := by
  induction part generalizing word with
  | nil => rw [List.nil_append, List.append_nil]
  | cons c part ih =>
    have hc := hpart c List.mem_cons_self
    rw [List.cons_append, words, hc, if_neg Bool.false_ne_true,
      ih fun d hd => hpart d (List.mem_cons_of_mem c hd), List.append_assoc, List.singleton_append]

/-- The words are read back from the text in which a blank stands before each of them. -/
lemma words_flatMap {parts : List (List UInt8)} (hparts : ∀ part ∈ parts, ∀ c ∈ part, isspace c = false)
    (word : List UInt8) : words word (parts.flatMap (32 :: ·) ++ [newline]) =
      some ((word :: parts).filter (· ≠ [])) := by
  have hblank : isspace 32 = true := by decide
  have hnewline : isspace newline = true := by decide
  induction parts generalizing word with
  | nil =>
    rw [List.flatMap_nil, List.nil_append, words, hnewline, if_pos rfl]
    by_cases hword : word = []
    · rw [if_pos hword, hword]
      rfl
    · simp [hword, words]
  | cons part parts ih =>
    have hrest := ih (fun p hp => hparts p (List.mem_cons_of_mem part hp)) part
    have hpart : words [] (part ++ (parts.flatMap (32 :: ·) ++ [newline])) =
        some ((part :: parts).filter (· ≠ [])) := by
      rw [words_append _ (hparts part List.mem_cons_self), List.nil_append, hrest]
    rw [List.flatMap_cons, List.append_assoc, List.cons_append, words, hblank, if_pos rfl, hpart]
    by_cases hword : word = []
    · simp [hword]
    · simp [hword]

lemma spaceWords_word {word : List UInt8} (hword : ∀ c ∈ word, isspace c = false) :
    spaceWords word = [word].filter (· ≠ []) := by
  rw [spaceWords, List.splitOnP_eq_singleton hword]

lemma spaceWords_append_cons {word : List UInt8} {c : UInt8} (text : List UInt8)
    (hword : ∀ d ∈ word, isspace d = false) (hc : isspace c = true) :
    spaceWords (word ++ c :: text) = [word].filter (· ≠ []) ++ spaceWords text := by
  rw [spaceWords, List.splitOnP_append_cons_of_forall_mem hword c hc, ← List.singleton_append, List.filter_append]
  rfl

lemma spaceWords_cons {c : UInt8} (text : List UInt8) (hc : isspace c = true) :
    spaceWords (c :: text) = spaceWords text :=
  @spaceWords_append_cons [] c text (List.forall_mem_nil _) hc

lemma lastOpen_word {word : List UInt8} (hword : ∀ c ∈ word, isspace c = false) (hne : word ≠ []) :
    lastOpen word = true := by
  rw [lastOpen, List.getLast?_eq_some_getLast hne, Option.any_some, hword _ (List.getLast_mem hne)]
  rfl

lemma lastOpen_append_cons (word : List UInt8) {c : UInt8} (text : List UInt8) (hc : isspace c = true) :
    lastOpen (word ++ c :: text) = lastOpen text := by
  cases text with
  | nil => simp [lastOpen, hc]
  | cons d text =>
    rw [lastOpen, List.getLast?_append_of_ne_nil word (List.cons_ne_nil c (d :: text)), List.getLast?_cons_cons]
    rfl

/-- The words of a text are all its words, unless the last one is not followed by whitespace. -/
lemma words_eq (word text : List UInt8) (hword : ∀ c ∈ word, isspace c = false) :
    words word text = if lastOpen (word ++ text) then none else some (spaceWords (word ++ text)) := by
  induction text generalizing word with
  | nil =>
    rw [words, List.append_nil]
    by_cases hne : word = []
    · rw [if_pos hne, hne]
      rfl
    · rw [if_neg hne, lastOpen_word hword hne, if_pos rfl]
  | cons c text ih =>
    rw [words]
    by_cases hc : isspace c = true
    · have hrest := ih [] (List.forall_mem_nil _)
      rw [List.nil_append] at hrest
      rw [if_pos hc, hrest, lastOpen_append_cons word text hc, spaceWords_append_cons text hword hc]
      by_cases hne : word = []
      · rw [if_pos hne, hne]
        rfl
      · rw [if_neg hne, apply_ite (Option.map (word :: ·))]
        simp [hne]
    · have hc : isspace c = false := by simpa using hc
      have hlonger : ∀ d ∈ word ++ [c], isspace d = false :=
        List.forall_mem_append.mpr ⟨hword, List.forall_mem_singleton.mpr hc⟩
      rw [hc, if_neg Bool.false_ne_true, ih _ hlonger, List.append_assoc, List.singleton_append]

lemma words_eatWhitespaces (text : List UInt8) : words [] (eatWhitespaces text) = words [] text := by
  induction text with
  | nil => rfl
  | cons c text ih =>
    by_cases hc : isspace c = true
    · rw [eatWhitespaces, List.dropWhile_cons_of_pos hc, words, if_pos hc, if_pos rfl]
      exact ih
    · rw [eatWhitespaces, List.dropWhile_cons_of_neg hc]

lemma firstWord_append {word : List UInt8} {c : UInt8} (text : List UInt8)
    (hword : ∀ d ∈ word, isspace d = false) (hc : isspace c = true) :
    firstWord (word ++ c :: text) = word := by
  unfold firstWord
  rw [List.takeWhile_append_of_pos fun d hd => by rw [hword d hd]; rfl,
    List.takeWhile_cons_of_neg (by rw [hc]; decide), List.append_nil]

lemma nextWhitespace_append {word : List UInt8} {c : UInt8} (text : List UInt8)
    (hword : ∀ d ∈ word, isspace d = false) (hc : isspace c = true) :
    nextWhitespace (word ++ c :: text) = c :: text := by
  unfold nextWhitespace
  rw [List.dropWhile_append_of_pos fun d hd => by rw [hword d hd]; rfl,
    List.dropWhile_cons_of_neg (by rw [hc]; decide)]

/-- The only word of a line is read back. -/
lemma firstWord_eatWhitespaces {word : List UInt8} (hword : ∀ d ∈ word, isspace d = false) :
    firstWord (eatWhitespaces (32 :: word ++ [newline])) = word := by
  have hblank : isspace 32 = true := by decide
  cases word with
  | nil => rfl
  | cons c word =>
    have hc : ¬ isspace c = true := by
      rw [hword c List.mem_cons_self]
      exact Bool.false_ne_true
    rw [eatWhitespaces, List.cons_append, List.dropWhile_cons_of_pos hblank, List.cons_append,
      List.dropWhile_cons_of_neg hc, ← List.cons_append]
    exact firstWord_append [] hword (by decide)

end YastCore.Lines
