import Mathlib.Data.Nat.Log
import YastCore.Transport.Leaves

/-!
# The buffer of the scanner

The start conditions `str` and `bybl` collect the value of a literal in `m_scandataBuffer`, which grows with
it and is kept from one literal to the next. A write outside it is `none`, and so is `SCANNER_ERROR`.
-/

namespace YastCore.Transport

open Lines

/-- `m_scandataBufferSize`: an `int`, zero until the buffer is first allocated. -/
structure ScanBuffer where
  size : Nat
  valid : size = 0 ∨ 1024 ≤ size ∧ size < 2 ^ 31

/-- The size that `extend_scanbuffer` asks for; `STRING_HUNK` is 1024. -/
def grown (size addsize : Nat) : Nat := size + max (max addsize size) 1024

namespace ScanBuffer

/-- `extend_scanbuffer` -/
def extend (buffer : ScanBuffer) (addsize : Nat) : Option ScanBuffer :=
  if h : grown buffer.size addsize < 2 ^ 31 then
    some ⟨grown buffer.size addsize, .inr ⟨by unfold grown; omega, h⟩⟩
  else none

/-- Before a literal begins. -/
def allocate (buffer : ScanBuffer) (addsize : Nat) : Option ScanBuffer :=
  if buffer.size = 0 then buffer.extend addsize else some buffer

/-- Before data is stored: whether it ends inside the buffer, and if not, an extension of this size. -/
def reserve (buffer : ScanBuffer) (used needed : Nat) : Option ScanBuffer :=
  if buffer.size ≤ used then buffer.extend needed else some buffer

/-- Bytes written behind the data. -/
def store (buffer : ScanBuffer) (data bytes : Text) : Option Text :=
  if data.length + bytes.length ≤ buffer.size then some (data ++ bytes) else none

end ScanBuffer

/-! ### The start condition `str` -/

/-- `[^\\\"\n]` -/
def isStringChar (c : UInt8) : Bool := c != 92 && c != 34 && c != 10

/-- From the current state of the buffer, its data and the rest of the text to the value of the token, what
follows it, and the buffer. -/
def strState (buffer : ScanBuffer) (data : Text) : Text → Option (Text × Text × ScanBuffer)
  | [] => none
  | c :: text =>
    if c = 34 then do
      let data ← buffer.store data [0]
      some (cut data, text, buffer)
    else if c = 92 then
      let octal := octalDigits 3 text
      if octal.1 ≠ [] then do
        let buffer ← buffer.reserve data.length 1
        let result := octalValue octal.1
        if 255 < result ∨ result = 0 then strState buffer data octal.2
        else do
          let data ← buffer.store data [UInt8.ofNat result]
          strState buffer data octal.2
      else
        match text with
        | [] => none
        | d :: text => do
          let buffer ← buffer.reserve data.length 1
          let data ← buffer.store data (scanEscape d)
          strState buffer data text
    else if c = 10 then do
      let buffer ← buffer.reserve data.length 1
      let data ← buffer.store data [10]
      strState buffer data text
    else
      let yytext := c :: text.takeWhile isStringChar
      -- `strcpy` stops at a NUL, `yyleng` is an `int`
      if 0 ∈ yytext ∨ 2 ^ 31 ≤ yytext.length then none
      else do
        let buffer ← buffer.reserve (data.length + yytext.length) yytext.length
        let _ ← buffer.store data (yytext ++ [0])
        strState buffer (data ++ yytext) (text.dropWhile isStringChar)
termination_by t => t.length
decreasing_by
  · have := length_octalDigits_le 3 text
    simp only [List.length_cons]
    omega
  · have := length_octalDigits_le 3 text
    simp only [List.length_cons]
    omega
  · simp only [List.length_cons]
    omega
  · simp only [List.length_cons]
    omega
  · have := (List.dropWhile_suffix isStringChar (l := text)).length_le
    simp only [List.length_cons]
    omega

/-- The scanner at a string. -/
def scanStringLiteral (buffer : ScanBuffer) : Text → Option (Text × Text × ScanBuffer)
  | 34 :: text => do
    let buffer ← buffer.allocate 1
    strState buffer [] text
  | _ => none

/-! ### The start condition `bybl` -/

/-- The longest match of pairs of hex digits, and the rest. -/
def hexPairs : Text → Text × Text
  | c :: d :: text =>
    if isxdigit c && isxdigit d then
      let pairs := hexPairs text
      (c :: d :: pairs.1, pairs.2)
    else ([], c :: d :: text)
  | text => ([], text)

/-- The bytes of the pairs. -/
def fromHexPairs : Text → List UInt8
  | c :: d :: text => UInt8.ofNat (xdigitValue c * 16 + xdigitValue d) :: fromHexPairs text
  | _ => []

lemma length_hexPairs_le (t : Text) : (hexPairs t).1.length + (hexPairs t).2.length = t.length := by
  induction t using hexPairs.induct with
  | case1 c d text h ih =>
    rw [hexPairs, if_pos h]
    simp only [List.length_cons]
    omega
  | case2 c d text h =>
    rw [hexPairs, if_neg h]
    simp
  | case3 text h =>
    rw [hexPairs]
    · simp
    · exact h

/-- The first `sizeof (long)` bytes of the buffer are for the length. -/
def byblState (buffer : ScanBuffer) (bytes : List UInt8) : Text → Option (List UInt8 × Text × ScanBuffer)
  | [] => none
  | c :: text =>
    if c = 93 then some (bytes, text, buffer)
    else if c = 9 ∨ c = 13 ∨ c = 32 ∨ c = 10 then byblState buffer bytes text
    else
      let yytext := (hexPairs (c :: text)).1
      if _hpairs : yytext = [] ∨ 2 ^ 31 ≤ yytext.length then none
      else do
        let used := 8 + bytes.length
        let buffer ← buffer.reserve (used + yytext.length / 2) yytext.length
        if used + yytext.length / 2 ≤ buffer.size then
          byblState buffer (bytes ++ fromHexPairs yytext) (hexPairs (c :: text)).2
        else none
termination_by t => t.length
decreasing_by
  · simp only [List.length_cons]
    omega
  · have hlength := length_hexPairs_le (c :: text)
    have hpos : 0 < (hexPairs (c :: text)).1.length := List.length_pos_iff.mpr fun hnil => _hpairs (.inl hnil)
    omega

/-- The scanner at a byteblock. -/
def scanByteblockLiteral (buffer : ScanBuffer) : Text → Option (List UInt8 × Text × ScanBuffer)
  | 35 :: 91 :: text => do
    let buffer ← buffer.allocate 8
    byblState buffer [] text
  | _ => none

/-! ### What the buffer has to hold -/

/-- What the rules of `str` take at a time of the text of a string: the escape of one character, or a run of
characters that stand for themselves. -/
inductive Piece where
  | escape
  | run (n : Nat)

/-- `toString` writes an escape for the character. -/
def isEscaped (c : UInt8) : Bool := c < 32 || c == 34 || c == 92

def pieces : Text → List Piece
  | [] => []
  | c :: s =>
    if isEscaped c then .escape :: pieces s
    else
      match pieces s with
      | .run n :: rest => .run (n + 1) :: rest
      | rest => .run 1 :: rest

/-- The pieces can be collected in a buffer of a size of which so much is used: it does not grow past the
range of an `int`, a run with its NUL fits into what it has grown to, and the closing quote finds room for
its NUL. -/
def Room (size used : Nat) : List Piece → Prop
  | [] => used < size
  | .escape :: rest =>
    if used < size then Room size (used + 1) rest
    else grown size 1 < 2 ^ 31 ∧ Room (grown size 1) (used + 1) rest
  | .run n :: rest =>
    if used + n < size then Room size (used + n) rest
    else grown size n < 2 ^ 31 ∧ used + n < grown size n ∧ Room (grown size n) (used + n) rest

/-- The last size that doubling reaches in the range of an `int`. -/
def capacity (size : Nat) : Nat := size * 2 ^ (30 - Nat.log 2 size)

namespace ScanBuffer

/-- The size after the prefix of a literal. -/
def start (buffer : ScanBuffer) : Nat := if buffer.size = 0 then 1024 else buffer.size

/-- A string whose pieces the buffer has room for. -/
def Holds (buffer : ScanBuffer) (s : Text) : Prop := Room buffer.start 0 (pieces s)

end ScanBuffer

/-! ### The rules of `str` -/

section Str

variable {buffer : ScanBuffer} {data text : Text}

lemma extend_eq_some {n : Nat} (h : grown buffer.size n < 2 ^ 31) :
    ∃ b, buffer.extend n = some b ∧ b.size = grown buffer.size n := by
  unfold ScanBuffer.extend
  rw [dif_pos h]
  exact ⟨_, rfl, rfl⟩

lemma extend_eq_none {n : Nat} (h : ¬ grown buffer.size n < 2 ^ 31) : buffer.extend n = none := by
  unfold ScanBuffer.extend
  rw [dif_neg h]

lemma reserve_of_lt {used needed : Nat} (h : used < buffer.size) :
    buffer.reserve used needed = some buffer := by
  rw [ScanBuffer.reserve, if_neg (by omega)]

lemma reserve_of_le {used needed : Nat} (h : buffer.size ≤ used) :
    buffer.reserve used needed = buffer.extend needed := by
  rw [ScanBuffer.reserve, if_pos h]

lemma store_eq_some {bytes : Text} (h : data.length + bytes.length ≤ buffer.size) :
    buffer.store data bytes = some (data ++ bytes) := by
  rw [ScanBuffer.store, if_pos h]

lemma store_eq_none {bytes : Text} (h : ¬ data.length + bytes.length ≤ buffer.size) :
    buffer.store data bytes = none := by
  rw [ScanBuffer.store, if_neg h]

lemma eq_append_of_store {bytes data' : Text} (h : buffer.store data bytes = some data') :
    data' = data ++ bytes := by
  rw [ScanBuffer.store] at h
  split at h
  · exact (Option.some.inj h).symm
  · cases h

lemma cut_append_zero (data : Text) : cut (data ++ [0]) = cut data := by
  unfold cut
  rw [List.takeWhile_append]
  split
  next h => rw [List.takeWhile_cons_of_neg (by simp), List.append_nil, List.IsPrefix.eq_of_length
    (List.takeWhile_prefix _) h]
  next h => rfl

/-- One character goes behind the data, in a buffer that is extended if it is full. -/
def strByte (buffer : ScanBuffer) (data : Text) (c : UInt8) (text : Text) :
    Option (Text × Text × ScanBuffer) := do
  let buffer ← buffer.reserve data.length 1
  let data ← buffer.store data [c]
  strState buffer data text

lemma strState_close : strState buffer data (34 :: text) =
    if data.length < buffer.size then some (cut data, text, buffer) else none := by
  rw [strState.eq_def]
  simp only [if_true]
  by_cases h : data.length < buffer.size
  · rw [if_pos h, store_eq_some (by simpa using h), Option.bind_eq_bind, Option.bind_some, cut_append_zero]
  · rw [if_neg h, store_eq_none (by simpa using h)]
    rfl

lemma strState_octal {c : UInt8} (h : c ≠ 0) :
    strState buffer data (92 :: octal3 c ++ text) = strByte buffer data c text := by
  have hpositive : c.toNat ≠ 0 := fun hzero => h (UInt8.toNat_inj.mp hzero)
  have hlt := c.toNat_lt
  have hdigits : octal3 c ≠ [] := by simp [octal3]
  have hrange : ¬ (255 < c.toNat ∨ c.toNat = 0) := by omega
  rw [List.cons_append, strState.eq_def]
  simp only [octalDigits_octal3, octalValue_octal3, if_pos hdigits, if_neg hrange, UInt8.ofNat_toNat]
  rfl

lemma strState_escape {c d : UInt8} (h : isOctal d = false) (hd : scanEscape d = [c]) :
    strState buffer data (92 :: d :: text) = strByte buffer data c text := by
  have hnone : octalDigits 3 (d :: text) = ([], d :: text) := by simp [octalDigits, h]
  rw [strState.eq_def]
  simp only [hnone, hd]
  rfl

/-- An escaped character is read back by one rule. -/
lemma strState_escapeChar {c : UInt8} (hescaped : isEscaped c = true) (h : c ≠ 0) :
    strState buffer data (escapeChar c ++ text) = strByte buffer data c text := by
  unfold escapeChar
  by_cases hnewline : c = 10
  · subst hnewline
    exact strState_escape (by decide) (by decide)
  by_cases htab : c = 9
  · subst htab
    exact strState_escape (by decide) (by decide)
  by_cases hreturn : c = 13
  · subst hreturn
    exact strState_escape (by decide) (by decide)
  by_cases hfeed : c = 12
  · subst hfeed
    exact strState_escape (by decide) (by decide)
  by_cases hback : c = 8
  · subst hback
    exact strState_escape (by decide) (by decide)
  rw [if_neg hnewline, if_neg htab, if_neg hreturn, if_neg hfeed, if_neg hback]
  by_cases hcontrol : c < 32
  · rw [if_pos hcontrol]
    exact strState_octal h
  rw [if_neg hcontrol]
  have hquote : c = 34 ∨ c = 92 := by
    simpa [isEscaped, hcontrol] using hescaped
  rw [if_pos hquote]
  rcases hquote with rfl | rfl
  · exact strState_escape (by decide) (by decide)
  · exact strState_escape (by decide) (by decide)

lemma isEscaped_spec {c : UInt8} (h : isEscaped c = false) :
    escapeChar c = [c] ∧ isStringChar c = true ∧ c ≠ 34 ∧ c ≠ 92 ∧ c ≠ 10 ∧ c ≠ 0 := by
  have hall : ∀ n : Fin 256, isEscaped (UInt8.ofNat n) = false →
      escapeChar (UInt8.ofNat n) = [UInt8.ofNat n] ∧ isStringChar (UInt8.ofNat n) = true ∧
        UInt8.ofNat n ≠ 34 ∧ UInt8.ofNat n ≠ 92 ∧ UInt8.ofNat n ≠ 10 ∧ UInt8.ofNat n ≠ 0 := by
    decide +kernel
  have hc := hall ⟨c.toNat, c.toNat_lt⟩
  rw [UInt8.ofNat_toNat] at hc
  exact hc h

/-- A run is copied in one piece, with a NUL behind it. -/
lemma strState_run {c : UInt8} {run : Text} (hrun : ∀ d ∈ c :: run, isEscaped d = false)
    (htext : ∀ d ∈ text.head?, isStringChar d = false) :
    strState buffer data (c :: run ++ text) =
      if 2 ^ 31 ≤ (c :: run).length then none
      else
        (buffer.reserve (data.length + (c :: run).length) (c :: run).length).bind fun buffer =>
        (buffer.store data (c :: run ++ [0])).bind fun _ => strState buffer (data ++ (c :: run)) text := by
  obtain ⟨-, -, h34, h92, h10, -⟩ := isEscaped_spec (hrun c List.mem_cons_self)
  have hchars : ∀ d ∈ run, isStringChar d = true :=
    fun d hd => (isEscaped_spec (hrun d (List.mem_cons_of_mem c hd))).2.1
  have htake : (run ++ text).takeWhile isStringChar = run := by
    rw [List.takeWhile_append_of_pos hchars]
    cases text with
    | nil => simp
    | cons d text =>
      rw [List.takeWhile_cons_of_neg (by simp [htext d rfl]), List.append_nil]
  have hdrop : (run ++ text).dropWhile isStringChar = text := by
    rw [List.dropWhile_append_of_pos hchars]
    cases text with
    | nil => rfl
    | cons d text => rw [List.dropWhile_cons_of_neg (by simp [htext d rfl])]
  have hzero : 0 ∉ c :: run := fun hmem => (isEscaped_spec (hrun 0 hmem)).2.2.2.2.2 rfl
  rw [List.cons_append, strState.eq_def]
  simp only [if_neg h34, if_neg h92, if_neg h10, htake, hdrop, or_iff_right hzero, Option.bind_eq_bind]

lemma le_grown (size n : Nat) : size + n ≤ grown size n ∧ size + 1024 ≤ grown size n := by
  unfold grown
  omega

/-- One character, in a buffer with room for it or in one that is full. -/
lemma strByte_of_lt {c : UInt8} (h : data.length < buffer.size) :
    strByte buffer data c text = strState buffer (data ++ [c]) text := by
  rw [strByte, reserve_of_lt h, Option.bind_eq_bind, Option.bind_some, store_eq_some (by simpa using h),
    Option.bind_eq_bind, Option.bind_some]

lemma strByte_of_full {c : UInt8} (h : data.length = buffer.size) :
    (¬ grown buffer.size 1 < 2 ^ 31 ∧ strByte buffer data c text = none) ∨
      (grown buffer.size 1 < 2 ^ 31 ∧ ∃ b : ScanBuffer, b.size = grown buffer.size 1 ∧
        strByte buffer data c text = strState b (data ++ [c]) text) := by
  rw [strByte, reserve_of_le h.ge]
  by_cases hgrown : grown buffer.size 1 < 2 ^ 31
  · obtain ⟨b, hb, hsize⟩ := extend_eq_some hgrown
    have hle := le_grown buffer.size 1
    have hfits : data.length + [c].length ≤ b.size := by
      rw [hsize, List.length_singleton]
      omega
    refine Or.inr ⟨hgrown, b, hsize, ?_⟩
    rw [hb, Option.bind_eq_bind, Option.bind_some, store_eq_some hfits, Option.bind_eq_bind,
      Option.bind_some]
  · rw [extend_eq_none hgrown]
    exact Or.inl ⟨hgrown, rfl⟩

lemma scanString_run {run : Text} (h : ∀ c ∈ run, isStringChar c = true) (data text : Text) :
    scanString data (run ++ text) = scanString (data ++ run) text := by
  induction run generalizing data with
  | nil => rw [List.nil_append, List.append_nil]
  | cons c run ih =>
    have hc := h c List.mem_cons_self
    simp only [isStringChar, Bool.and_eq_true, bne_iff_ne] at hc
    rw [List.cons_append, scanString_plain data _ hc.1.2 hc.1.1,
      ih fun d hd => h d (List.mem_cons_of_mem c hd), List.append_assoc, List.singleton_append]

/-- Where the rules stay inside the buffer, they read what a scanner without one would read. -/
theorem scanString_of_strState (n : Nat) {buffer' : ScanBuffer} {v rest : Text} (hn : text.length ≤ n)
    (h : strState buffer data text = some (v, rest, buffer')) : scanString data text = some (v, rest) := by
  induction n generalizing text buffer data with
  | zero =>
    have hnil : text = [] := List.length_eq_zero_iff.mp (by omega)
    rw [hnil, strState.eq_def] at h
    cases h
  | succ n ih =>
    cases text with
    | nil =>
      rw [strState.eq_def] at h
      cases h
    | cons c text =>
      rw [List.length_cons] at hn
      rw [strState.eq_def] at h
      rw [scanString.eq_def]
      dsimp only at h ⊢
      split at h
      next hquote =>
        rw [if_pos hquote]
        obtain ⟨data', hdata', h⟩ := Option.bind_eq_some_iff.mp h
        cases h
        rw [eq_append_of_store hdata', cut_append_zero]
      next hquote =>
        rw [if_neg hquote]
        split at h
        next hbackslash =>
          rw [if_pos hbackslash]
          have hoctal := length_octalDigits_le 3 text
          split at h
          next hdigits =>
            rw [if_pos hdigits]
            obtain ⟨b, -, h⟩ := Option.bind_eq_some_iff.mp h
            split at h
            next hrange =>
              rw [if_pos hrange]
              exact ih (by omega) h
            next hrange =>
              rw [if_neg hrange]
              obtain ⟨data', hdata', h⟩ := Option.bind_eq_some_iff.mp h
              rw [eq_append_of_store hdata'] at h
              exact ih (by omega) h
          next hdigits =>
            rw [if_neg hdigits]
            cases text with
            | nil => cases h
            | cons d text =>
              rw [List.length_cons] at hn
              obtain ⟨b, -, h⟩ := Option.bind_eq_some_iff.mp h
              obtain ⟨data', hdata', h⟩ := Option.bind_eq_some_iff.mp h
              rw [eq_append_of_store hdata'] at h
              exact ih (by omega) h
        next hbackslash =>
          rw [if_neg hbackslash]
          split at h
          next hnewline =>
            obtain ⟨b, -, h⟩ := Option.bind_eq_some_iff.mp h
            obtain ⟨data', hdata', h⟩ := Option.bind_eq_some_iff.mp h
            rw [eq_append_of_store hdata'] at h
            rw [hnewline]
            exact ih (by omega) h
          next hnewline =>
            split at h
            · cases h
            · obtain ⟨b, -, h⟩ := Option.bind_eq_some_iff.mp h
              obtain ⟨-, -, h⟩ := Option.bind_eq_some_iff.mp h
              have hdrop := (List.dropWhile_suffix isStringChar (l := text)).length_le
              have hread := ih (by omega) h
              have htake : ∀ d ∈ text.takeWhile isStringChar, isStringChar d = true :=
                fun d hd => List.mem_takeWhile_imp hd
              rw [← hread, ← List.takeWhile_append_dropWhile (p := isStringChar) (l := text),
                scanString_run htake]
              simp

/-! ### Runs -/

lemma pieces_escape {c : UInt8} (h : isEscaped c = true) (s : Text) : pieces (c :: s) = .escape :: pieces s := by
  rw [pieces, if_pos h]

lemma pieces_run {c : UInt8} {run rest : Text} (hrun : ∀ d ∈ c :: run, isEscaped d = false)
    (hrest : ∀ d ∈ rest.head?, isEscaped d = true) :
    pieces (c :: run ++ rest) = .run (c :: run).length :: pieces rest := by
  induction run generalizing c with
  | nil =>
    have hc := hrun c List.mem_cons_self
    rw [List.singleton_append, pieces, hc, if_neg Bool.false_ne_true]
    cases rest with
    | nil => rfl
    | cons d rest =>
      rw [pieces_escape (hrest d rfl)]
      rfl
  | cons d run ih =>
    have hc := hrun c List.mem_cons_self
    rw [List.cons_append, pieces, hc, if_neg Bool.false_ne_true,
      ih (fun d' hd' => hrun d' (List.mem_cons_of_mem c hd'))]
    rfl

/-- A string that begins with a character that is not escaped, taken apart after the first run. -/
lemma exists_run {c : UInt8} {s : Text} (h : isEscaped c = false) :
    ∃ run rest, c :: s = c :: run ++ rest ∧ (∀ d ∈ c :: run, isEscaped d = false) ∧
      ∀ d ∈ rest.head?, isEscaped d = true := by
  refine ⟨s.takeWhile fun d => !isEscaped d, s.dropWhile fun d => !isEscaped d, ?_, ?_, ?_⟩
  · rw [List.cons_append, List.takeWhile_append_dropWhile]
  · intro d hd
    rcases List.mem_cons.mp hd with rfl | hd
    · exact h
    · simpa using List.mem_takeWhile_imp hd
  · intro d hd
    have hnot := List.head?_dropWhile_not (fun d => !isEscaped d) s
    rw [Option.mem_def.mp hd] at hnot
    simpa using hnot

lemma flatMap_run {run : Text} (h : ∀ d ∈ run, isEscaped d = false) : run.flatMap escapeChar = run := by
  induction run with
  | nil => rfl
  | cons c run ih =>
    rw [List.flatMap_cons, (isEscaped_spec (h c List.mem_cons_self)).1,
      ih fun d hd => h d (List.mem_cons_of_mem c hd), List.singleton_append]

/-- What follows a run in the text of a string is no character of one. -/
lemma head_flatMap {rest : Text} (tail : Text) (h : ∀ d ∈ rest.head?, isEscaped d = true) :
    ∀ d ∈ (rest.flatMap escapeChar ++ 34 :: tail).head?, isStringChar d = false := by
  cases rest with
  | nil =>
    rintro d hd
    cases hd
    rfl
  | cons c rest =>
    have hfirst : ∀ n : Fin 256, isEscaped (UInt8.ofNat n) = true →
        (escapeChar (UInt8.ofNat n)).head? = some 92 := by
      decide +kernel
    have hc := hfirst ⟨c.toNat, c.toNat_lt⟩
    rw [UInt8.ofNat_toNat] at hc
    obtain ⟨t, ht⟩ : ∃ t, escapeChar c = 92 :: t := by
      have hhead := hc (h c rfl)
      cases hescape : escapeChar c with
      | nil =>
        rw [hescape] at hhead
        cases hhead
      | cons d t =>
        rw [hescape] at hhead
        exact ⟨t, by rw [Option.some.inj hhead]⟩
    rw [List.flatMap_cons, ht]
    rintro d hd
    cases hd
    rfl

/-- The result that the text of a string should have. -/
def ScansAs (result : Option (Text × Text × ScanBuffer)) (v rest : Text) : Prop :=
  ∃ b, result = some (v, rest, b)

lemma not_scansAs_none (v rest : Text) : ¬ ScansAs none v rest := by
  rintro ⟨b, hb⟩
  cases hb

lemma strState_close_iff (rest : Text) :
    ScansAs (strState buffer data (34 :: rest)) (cut data) rest ↔ data.length < buffer.size := by
  rw [strState_close]
  split
  next h => exact ⟨fun _ => h, fun _ => ⟨buffer, rfl⟩⟩
  next h => exact ⟨fun hreads => absurd hreads (not_scansAs_none _ _), fun hlt => absurd hlt h⟩

/-- The rule for an escape, with the reading of what follows it. -/
lemma strByte_iff {c : UInt8} {v rest : Text} {tail : List Piece} (hdata : data.length ≤ buffer.size)
    (h : ∀ b : ScanBuffer, data.length + 1 ≤ b.size →
      (ScansAs (strState b (data ++ [c]) text) v rest ↔ Room b.size (data.length + 1) tail)) :
    ScansAs (strByte buffer data c text) v rest ↔ Room buffer.size data.length (.escape :: tail) := by
  rw [Room]
  by_cases hlt : data.length < buffer.size
  · rw [if_pos hlt, strByte_of_lt hlt]
    exact h buffer hlt
  · rw [if_neg hlt]
    have hfull : data.length = buffer.size := by omega
    obtain ⟨hgrown, hnone⟩ | ⟨hgrown, b, hsize, hsome⟩ := @strByte_of_full buffer data text c hfull
    · rw [hnone]
      exact ⟨fun hreads => absurd hreads (not_scansAs_none v rest), fun hroom => absurd hroom.1 hgrown⟩
    · have hle := le_grown buffer.size 1
      rw [hsome, h b (by omega), hsize]
      exact ⟨fun hroom => ⟨hgrown, hroom⟩, fun hroom => hroom.2⟩

/-- The rule for a run, with the reading of what follows it. -/
lemma strRun_iff {c : UInt8} {run v rest : Text} {tail : List Piece}
    (hrun : ∀ d ∈ c :: run, isEscaped d = false) (htext : ∀ d ∈ text.head?, isStringChar d = false)
    (h : ∀ b : ScanBuffer, data.length + (c :: run).length ≤ b.size →
      (ScansAs (strState b (data ++ (c :: run)) text) v rest ↔
        Room b.size (data.length + (c :: run).length) tail)) :
    ScansAs (strState buffer data (c :: run ++ text)) v rest ↔
      Room buffer.size data.length (.run (c :: run).length :: tail) := by
  have hstored : (c :: run ++ [0]).length = (c :: run).length + 1 := List.length_append
  have hvalid := buffer.valid
  rw [strState_run hrun htext, Room]
  by_cases hlt : data.length + (c :: run).length < buffer.size
  · rw [if_neg (by omega), if_pos hlt, reserve_of_lt hlt, Option.bind_some, store_eq_some (by omega),
      Option.bind_some]
    exact h buffer (by omega)
  · rw [if_neg hlt, reserve_of_le (by omega)]
    have hle := le_grown buffer.size (c :: run).length
    by_cases hgrown : grown buffer.size (c :: run).length < 2 ^ 31
    · obtain ⟨b, hb, hsize⟩ := extend_eq_some hgrown
      rw [if_neg (by omega), hb, Option.bind_some]
      by_cases hfits : data.length + (c :: run).length < grown buffer.size (c :: run).length
      · rw [store_eq_some (by omega), Option.bind_some, h b (by omega), hsize]
        exact ⟨fun hroom => ⟨hgrown, hfits, hroom⟩, fun hroom => hroom.2.2⟩
      · rw [store_eq_none (by omega), Option.bind_none]
        exact ⟨fun hreads => absurd hreads (not_scansAs_none v rest), fun hroom => absurd hroom.2.1 hfits⟩
    · have hnone : (if 2 ^ 31 ≤ (c :: run).length then none
          else (buffer.extend (c :: run).length).bind fun buffer =>
            (buffer.store data (c :: run ++ [0])).bind fun _ => strState buffer (data ++ (c :: run)) text) =
          none := by
        rw [extend_eq_none hgrown]
        split <;> rfl
      rw [hnone]
      exact ⟨fun hreads => absurd hreads (not_scansAs_none v rest), fun hroom => absurd hroom.1 hgrown⟩

/-- The string comes back from its text exactly when the buffer has room for its pieces. -/
lemma strState_iff_room (n : Nat) (s rest : Text) (hn : s.length ≤ n) (hs : 0 ∉ s) (buffer : ScanBuffer)
    (data : Text) (hdata : data.length ≤ buffer.size) :
    ScansAs (strState buffer data (s.flatMap escapeChar ++ 34 :: rest)) (cut (data ++ s)) rest ↔
      Room buffer.size data.length (pieces s) := by
  induction n generalizing s buffer data with
  | zero =>
    have hnil : s = [] := List.length_eq_zero_iff.mp (by omega)
    rw [hnil, List.append_nil]
    exact strState_close_iff rest
  | succ n ih =>
    cases s with
    | nil =>
      rw [List.append_nil]
      exact strState_close_iff rest
    | cons c s =>
      cases hescaped : isEscaped c with
      | true =>
        rw [List.mem_cons, not_or] at hs
        rw [List.length_cons] at hn
        rw [List.flatMap_cons, List.append_assoc, strState_escapeChar hescaped (Ne.symm hs.1),
          pieces_escape hescaped]
        refine strByte_iff hdata fun b hb => ?_
        have hrest := ih s (by omega) hs.2 b (data ++ [c]) (by simpa using hb)
        rw [List.append_assoc, List.singleton_append, List.length_append, List.length_singleton] at hrest
        exact hrest
      | false =>
        obtain ⟨run, tail, hsplit, hrun, htail⟩ := exists_run (s := s) hescaped
        rw [hsplit] at hs hn ⊢
        rw [List.length_append, List.length_cons] at hn
        rw [List.flatMap_append, flatMap_run hrun, List.append_assoc, pieces_run hrun htail]
        refine strRun_iff hrun (head_flatMap rest htail) fun b hb => ?_
        have hrest := ih tail (by omega) (fun h0 => hs (List.mem_append_right _ h0)) b (data ++ (c :: run))
          (by rw [List.length_append]; exact hb)
        rw [List.append_assoc, List.length_append] at hrest
        exact hrest

end Str

/-! ### The rules of `bybl` -/

section Bybl

/-- The digits of some bytes, without blanks. -/
def hexText (bytes : List UInt8) : Text :=
  bytes.flatMap fun b => [hexDigit (b.toNat / 16), hexDigit (b.toNat % 16)]

lemma length_hexText (bytes : List UInt8) : (hexText bytes).length = 2 * bytes.length := by
  induction bytes with
  | nil => rfl
  | cons b bytes ih =>
    have hcons : hexText (b :: bytes) = hexDigit (b.toNat / 16) :: hexDigit (b.toNat % 16) :: hexText bytes := rfl
    rw [hcons, List.length_cons, List.length_cons, ih, List.length_cons]
    omega

/-- A byteblock is printed line by line. -/
lemma bytesToText_line (bytes : List UInt8) (position : Nat) (h : position ≤ 31) :
    bytesToText position bytes = hexText (bytes.take (32 - position)) ++
      if 32 - position ≤ bytes.length then 32 :: bytesToText 0 (bytes.drop (32 - position)) else [] := by
  induction bytes generalizing position with
  | nil =>
    have hpos : ¬ 32 - position ≤ ([] : List UInt8).length := by
      rw [List.length_nil]
      omega
    rw [if_neg hpos, List.take_nil]
    rfl
  | cons b bytes ih =>
    obtain ⟨k, hk⟩ : ∃ k, 32 - position = k + 1 := ⟨31 - position, by omega⟩
    rw [hk, List.take_succ_cons, List.drop_succ_cons, List.length_cons, bytesToText]
    by_cases hlast : position = 31
    · have hzero : k = 0 := by omega
      rw [if_pos hlast, hzero]
      simp [hexText]
    · have hnext : 32 - (position + 1) = k := by omega
      rw [if_neg hlast, ih (position + 1) (by omega), hnext]
      simp only [Nat.add_le_add_iff_right]
      rfl

lemma hexPairs_of_not {rest : Text} (h : ∀ d ∈ rest.head?, isxdigit d = false) : hexPairs rest = ([], rest) := by
  rw [hexPairs.eq_def]
  split
  next c d text =>
    have hc : isxdigit c = false := h c rfl
    rw [hc, Bool.false_and, if_neg Bool.false_ne_true]
  next => rfl

lemma hexPairs_hexText (bytes : List UInt8) {rest : Text} (h : ∀ d ∈ rest.head?, isxdigit d = false) :
    hexPairs (hexText bytes ++ rest) = (hexText bytes, rest) := by
  induction bytes with
  | nil => exact hexPairs_of_not h
  | cons b bytes ih =>
    have hb := b.toNat_lt
    have hhigh := (hexDigit_spec (b.toNat / 16) (by omega)).1
    have hlow := (hexDigit_spec (b.toNat % 16) (by omega)).1
    have hcons : hexText (b :: bytes) = hexDigit (b.toNat / 16) :: hexDigit (b.toNat % 16) :: hexText bytes := rfl
    rw [hcons, List.cons_append, List.cons_append, hexPairs, hhigh, hlow, Bool.and_self, if_pos rfl, ih]

lemma fromHexPairs_hexText (bytes : List UInt8) : fromHexPairs (hexText bytes) = bytes := by
  induction bytes with
  | nil => rfl
  | cons b bytes ih =>
    have hb := b.toNat_lt
    have hhigh := (hexDigit_spec (b.toNat / 16) (by omega)).2.1
    have hlow := (hexDigit_spec (b.toNat % 16) (by omega)).2.1
    have hcons : hexText (b :: bytes) = hexDigit (b.toNat / 16) :: hexDigit (b.toNat % 16) :: hexText bytes := rfl
    rw [hcons, fromHexPairs, ih, hhigh, hlow, Nat.div_add_mod', UInt8.ofNat_toNat]

/-- The digits of a line are taken at once. -/
lemma byblState_line {bytes : List UInt8} {rest : Text} (buffer : ScanBuffer) (acc : List UInt8)
    (hbytes : bytes ≠ []) (hlength : bytes.length ≤ 32) (hrest : ∀ d ∈ rest.head?, isxdigit d = false) :
    byblState buffer acc (hexText bytes ++ rest) =
      (buffer.reserve (8 + acc.length + bytes.length) (2 * bytes.length)).bind fun buffer =>
      if 8 + acc.length + bytes.length ≤ buffer.size then byblState buffer (acc ++ bytes) rest else none := by
  have hpairs := hexPairs_hexText bytes hrest
  have hsize := length_hexText bytes
  have hbytes' := fromHexPairs_hexText bytes
  have hpos := List.length_pos_iff.mpr hbytes
  obtain ⟨c, text, hcons⟩ : ∃ c text, hexText bytes = c :: text := by
    cases h : hexText bytes with
    | nil =>
      rw [h, List.length_nil] at hsize
      omega
    | cons c text => exact ⟨c, text, rfl⟩
  have hdigit : isxdigit c = true := by
    cases bytes with
    | nil => exact absurd rfl hbytes
    | cons b bytes =>
      cases hcons
      have hb := b.toNat_lt
      exact (hexDigit_spec (b.toNat / 16) (by omega)).1
  obtain ⟨hclose, hblank⟩ := isxdigit_not_space hdigit
  have hhalf : (hexText bytes).length / 2 = bytes.length := by omega
  have hnot : ¬ (hexText bytes = [] ∨ 2 ^ 31 ≤ (hexText bytes).length) := by
    rw [hcons, or_iff_right (List.cons_ne_nil c text), ← hcons]
    omega
  rw [hcons, List.cons_append] at hpairs
  rw [hcons, List.cons_append, byblState, if_neg hclose, if_neg hblank]
  dsimp only
  rw [hpairs, ← hcons, dif_neg hnot, hhalf, hsize, hbytes', Option.bind_eq_bind]

/-- What follows a line: the blank is skipped. -/
lemma byblState_lines (buffer : ScanBuffer) (acc bytes : List UInt8) (rest : Text) :
    byblState buffer acc ((if 32 ≤ bytes.length then 32 :: bytesToText 0 (bytes.drop 32) else []) ++ 93 :: rest) =
      byblState buffer acc (bytesToText 0 (bytes.drop 32) ++ 93 :: rest) := by
  split
  · rw [List.cons_append, byblState, if_neg (by decide), if_pos (by decide)]
  next hshort =>
    rw [List.drop_eq_nil_of_le (by omega)]
    rfl

/-! ### The size of the buffer -/

lemma le_capacity (size : Nat) : size ≤ capacity size := by
  unfold capacity
  exact Nat.le_mul_of_pos_right size (Nat.two_pow_pos _)

lemma capacity_double {size : Nat} (hpos : 0 < size) (h : 2 * size < 2 ^ 31) :
    capacity (2 * size) = capacity size := by
  have hlog : Nat.log 2 (2 * size) = Nat.log 2 size + 1 := by
    rw [Nat.mul_comm]
    exact Nat.log_mul_base (by decide) (by omega)
  have hlt : Nat.log 2 size < 30 := Nat.log_lt_of_lt_pow (by omega) (by omega)
  obtain ⟨k, hk⟩ : ∃ k, 30 - Nat.log 2 size = k + 1 := ⟨29 - Nat.log 2 size, by omega⟩
  have hk' : 30 - (Nat.log 2 size + 1) = k := by omega
  rw [capacity, capacity, hlog, hk, hk', Nat.pow_succ]
  ring

lemma capacity_last {size : Nat} (h : ¬ 2 * size < 2 ^ 31) (h' : size < 2 ^ 31) : capacity size = size := by
  have hlog : 30 ≤ Nat.log 2 size := Nat.le_log_of_pow_le (by decide) (by omega)
  rw [capacity, Nat.sub_eq_zero_of_le hlog, Nat.pow_zero, Nat.mul_one]

lemma byblState_close_iff (buffer : ScanBuffer) (acc : List UInt8) (rest : Text)
    (hacc : 8 + acc.length < buffer.size) :
    (∃ b, byblState buffer acc (bytesToText 0 [] ++ 93 :: rest) = some (acc ++ [], rest, b)) ↔
      8 + acc.length + ([] : List UInt8).length < capacity buffer.size := by
  have hle := le_capacity buffer.size
  refine iff_of_true ⟨buffer, ?_⟩ (by rw [List.length_nil]; omega)
  rw [bytesToText, List.nil_append, List.append_nil, byblState, if_pos rfl]

/-- A byteblock comes back from its text exactly when a buffer can grow to hold it. -/
lemma byblState_iff_capacity (n : Nat) (bytes : List UInt8) (rest : Text) (hn : bytes.length ≤ n)
    (buffer : ScanBuffer) (acc : List UInt8) (hsize : 1024 ≤ buffer.size)
    (hacc : 8 + acc.length < buffer.size) :
    (∃ b, byblState buffer acc (bytesToText 0 bytes ++ 93 :: rest) = some (acc ++ bytes, rest, b)) ↔
      8 + acc.length + bytes.length < capacity buffer.size := by
  induction n generalizing bytes buffer acc with
  | zero =>
    have hnil : bytes = [] := List.length_eq_zero_iff.mp (by omega)
    rw [hnil]
    exact byblState_close_iff buffer acc rest hacc
  | succ n ih =>
    by_cases hnil : bytes = []
    · rw [hnil]
      exact byblState_close_iff buffer acc rest hacc
    have hpos := List.length_pos_iff.mpr hnil
    have hline : bytes.take 32 ≠ [] := by simp [hnil]
    have hshort : (bytes.take 32).length ≤ 32 := List.length_take_le 32 bytes
    have hsplit : (bytes.take 32).length + (bytes.drop 32).length = bytes.length := by
      rw [← List.length_append, List.take_append_drop]
    have hdrop : (bytes.drop 32).length ≤ n := by
      rw [List.length_drop]
      omega
    have hnext : ∀ d ∈ ((if 32 ≤ bytes.length then 32 :: bytesToText 0 (bytes.drop 32) else []) ++
        93 :: rest).head?, isxdigit d = false := by
      split
      all_goals
        rintro d hd
        cases hd
        rfl
    -- the rest of the bytes, after the line is stored
    have hrest : ∀ b : ScanBuffer, 1024 ≤ b.size → 8 + acc.length + (bytes.take 32).length < b.size →
        ((∃ b', byblState b (acc ++ bytes.take 32) (bytesToText 0 (bytes.drop 32) ++ 93 :: rest) =
          some (acc ++ bytes, rest, b')) ↔ 8 + acc.length + bytes.length < capacity b.size) := by
      intro b hb hroom
      have hih := ih (bytes.drop 32) hdrop b (acc ++ bytes.take 32) hb
        (by rw [List.length_append]; omega)
      rw [List.append_assoc, List.take_append_drop, List.length_append] at hih
      rw [hih]
      have heq : 8 + (acc.length + (bytes.take 32).length) + (bytes.drop 32).length =
          8 + acc.length + bytes.length := by omega
      rw [heq]
    rw [bytesToText_line bytes 0 (by omega), Nat.sub_zero, List.append_assoc,
      byblState_line buffer acc hline hshort hnext]
    simp only [byblState_lines]
    by_cases hfits : 8 + acc.length + (bytes.take 32).length < buffer.size
    · rw [reserve_of_lt hfits, Option.bind_some, if_pos (by omega)]
      exact hrest buffer hsize hfits
    · rw [reserve_of_le (by omega)]
      have hdouble : grown buffer.size (2 * (bytes.take 32).length) = 2 * buffer.size := by
        unfold grown
        omega
      have hvalid := buffer.valid
      by_cases hgrown : 2 * buffer.size < 2 ^ 31
      · obtain ⟨b, hb, hbsize⟩ := extend_eq_some (hdouble.trans_lt hgrown)
        rw [hdouble] at hbsize
        rw [hb, Option.bind_some, if_pos (by omega), hrest b (by omega) (by omega), hbsize,
          capacity_double (by omega) hgrown]
      · rw [extend_eq_none (by rw [hdouble]; exact hgrown), Option.bind_none,
          capacity_last hgrown (by omega)]
        refine iff_of_false ?_ (by omega)
        rintro ⟨b, hb⟩
        cases hb

end Bybl

/-! ### Literals -/

/-- `YCPByteblockRep::toString` -/
def byteblockToText (bytes : List UInt8) : Text := ascii "#[" ++ (bytesToText 0 bytes ++ [93])

/-- The buffer after the prefix of a literal. -/
lemma allocate_spec (buffer : ScanBuffer) {n : Nat} (hn : n ≤ 1024) :
    ∃ b : ScanBuffer, buffer.allocate n = some b ∧
      b.size = buffer.start ∧ 1024 ≤ b.size := by
  have hvalid := buffer.valid
  unfold ScanBuffer.start ScanBuffer.allocate
  by_cases hzero : buffer.size = 0
  · have hgrown : grown buffer.size n = 1024 := by
      unfold grown
      omega
    obtain ⟨b, hb, hsize⟩ := extend_eq_some (hgrown.trans_lt (by decide))
    rw [if_pos hzero, if_pos hzero]
    exact ⟨b, hb, by omega, by omega⟩
  · rw [if_neg hzero, if_neg hzero]
    exact ⟨buffer, rfl, rfl, by omega⟩

lemma scanStringLiteral_iff (buffer : ScanBuffer) {s : Text} (rest : Text) (hs : 0 ∉ s) :
    (∃ b, scanStringLiteral buffer (stringToText s ++ rest) = some (s, rest, b)) ↔ buffer.Holds s := by
  obtain ⟨b, hb, hsize, -⟩ := allocate_spec buffer (n := 1) (by decide)
  have hstring := strState_iff_room s.length s rest le_rfl hs b [] (Nat.zero_le _)
  have hcut : cut s = s := cut_eq_self.mpr hs
  rw [List.nil_append, hcut, hsize, List.length_nil] at hstring
  rw [ScanBuffer.Holds, ← hstring, stringToText, hcut, List.cons_append, List.append_assoc,
    List.singleton_append, scanStringLiteral, hb]
  rfl

lemma scanByteblockLiteral_iff (buffer : ScanBuffer) (bytes : List UInt8) (rest : Text) :
    (∃ b, scanByteblockLiteral buffer (byteblockToText bytes ++ rest) = some (bytes, rest, b)) ↔
      8 + bytes.length < capacity buffer.start := by
  obtain ⟨b, hb, hsize, hle⟩ := allocate_spec buffer (n := 8) (by decide)
  have hblock := byblState_iff_capacity bytes.length bytes rest le_rfl b [] hle
    (by rw [List.length_nil]; omega)
  rw [List.nil_append, List.length_nil, hsize] at hblock
  have htext : byteblockToText bytes ++ rest = 35 :: 91 :: (bytesToText 0 bytes ++ 93 :: rest) := by
    rw [byteblockToText, List.append_assoc, List.append_assoc]
    rfl
  rw [htext, scanByteblockLiteral, hb, Option.bind_eq_bind, Option.bind_some]
  exact hblock

/-- From any state of the buffer, a string comes back from its text exactly when the buffer has room for its
pieces, and a byteblock exactly when the buffer can grow to hold it. -/
theorem literals_round_trip_iff (buffer : ScanBuffer) :
    (∀ s rest, 0 ∉ s →
      ((∃ b, scanStringLiteral buffer (stringToText s ++ rest) = some (s, rest, b)) ↔ buffer.Holds s)) ∧
    ∀ bytes rest, (∃ b, scanByteblockLiteral buffer (byteblockToText bytes ++ rest) = some (bytes, rest, b)) ↔
      8 + bytes.length < capacity buffer.start :=
  ⟨fun _ rest hs => scanStringLiteral_iff buffer rest hs, scanByteblockLiteral_iff buffer⟩

/-- The buffer of a new scanner. -/
def newBuffer : ScanBuffer := ⟨0, .inl rfl⟩

/-- A letter and a line feed. -/
theorem literals_round_trip_line :
    ∃ b, scanStringLiteral newBuffer (stringToText [97, 10] ++ []) = some ([97, 10], [], b) := by
  refine ((literals_round_trip_iff newBuffer).1 [97, 10] [] (by decide)).mpr ?_
  have hpieces : pieces [97, 10] = [.run 1, .escape] := rfl
  have hstart : newBuffer.start = 1024 := rfl
  rw [ScanBuffer.Holds, hpieces, hstart]
  simp [Room]

lemma pieces_replicate (k : Nat) : pieces (List.replicate k 10) = List.replicate k .escape := by
  induction k with
  | zero => rfl
  | succ k ih => rw [List.replicate_succ, List.replicate_succ, pieces_escape (by decide), ih]

lemma not_room_replicate (k used : Nat) : ¬ Room (used + k) used (List.replicate k .escape) := by
  induction k generalizing used with
  | zero => exact Nat.lt_irrefl used
  | succ k ih =>
    have hlast := ih (used + 1)
    rw [Nat.add_right_comm] at hlast
    rw [List.replicate_succ, Room, if_pos (by omega)]
    exact hlast

lemma zero_not_mem_replicate (k : Nat) : 0 ∉ List.replicate k (10 : UInt8) := by
  simp

/-- As many escapes as the buffer has bytes leave no room for the NUL at the closing quote. -/
lemma scanStringLiteral_full {buffer : ScanBuffer} {k : Nat} (h : buffer.start = k) :
    ¬ ∃ b, scanStringLiteral buffer (stringToText (List.replicate k 10) ++ []) =
      some (List.replicate k 10, [], b) := by
  rw [scanStringLiteral_iff buffer [] (zero_not_mem_replicate k), ScanBuffer.Holds, pieces_replicate, h]
  have hroom := not_room_replicate k 0
  rwa [Nat.zero_add] at hroom

/-- A string of 1024 line feeds, in a new scanner. -/
theorem literals_round_trip_full :
    ¬ ∀ buffer s, 0 ∉ s → ∃ b, scanStringLiteral buffer (stringToText s ++ []) = some (s, [], b) := by
  intro h
  have hsize : newBuffer.start = 1024 := rfl
  generalize 1024 = k at hsize
  exact scanStringLiteral_full hsize (h newBuffer (List.replicate k 10) (zero_not_mem_replicate k))

end YastCore.Transport
