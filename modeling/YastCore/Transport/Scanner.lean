import YastCore.Transport.Text

/-!
# The scanner

The rules of `scanner.ll` for the texts of values: constants, quoted symbols, and the characters of
lists, maps and terms. The longest match decides between the rules, so a number that goes on as a
float and a keyword that goes on as an identifier are no tokens here.
-/

namespace YastCore.Transport

open Lines

/-- A token with its value. `C_SYMBOL` may also be the name of a term. -/
inductive Token where
  | constant (value : YCPValue)
  | symbol (name : Text)
  | mapExpr
  | closeBracket
  | char (c : UInt8)

/-! ### Characters -/

def isDigit (c : UInt8) : Bool := 48 ≤ c && c ≤ 57

def isAlpha (c : UInt8) : Bool := (65 ≤ c && c ≤ 90) || (97 ≤ c && c ≤ 122)

def isAlnum (c : UInt8) : Bool := isAlpha c || isDigit c

/-- `[[:alnum:]_]` -/
def isWordChar (c : UInt8) : Bool := isAlnum c || c == 95

/-! ### Constants -/

/-- A longest match, and the rest. -/
def longest (p : UInt8 → Bool) (t : Text) : Text × Text := (t.takeWhile p, t.dropWhile p)

/-- The number goes on as `[0-9]+\.[0-9]*([eE][+-]?[0-9]+)?|[0-9]+[eE][+-]?[0-9]+`. -/
def isFloatTail : Text → Bool
  | c :: d :: t =>
    c == 46 || (c == 101 || c == 69) && (isDigit d || (d == 43 || d == 45) && (t.head?.map isDigit).getD false)
  | [c] => c == 46
  | [] => false

def digitsValue (base : Nat) (digits : Text) : Nat :=
  digits.foldl (fun n d => base * n + xdigitValue d) 0

/-- The value of `sscanf` into a `long long` for a number without a sign. -/
def unsignedValue (n : Nat) : Int64 := Int64.ofNat (min n (2 ^ 64 - 1))

/-- The value of `atoll`. -/
def signedValue (n : Nat) : Int64 := Int64.ofNat (min n (2 ^ 63 - 1))

/-- A number of decimal digits only. -/
def plainNumber (digits : Text) : Option YCPValue :=
  if digits.head? = some 48 then
    if digits.all isOctal then some (.integer (unsignedValue (digitsValue 8 digits))) else none
  else some (.integer (signedValue (digitsValue 10 digits)))

def hexNumber (digits : Text) : Option YCPValue :=
  if digits ≠ [] ∧ digits.all isxdigit then some (.integer (unsignedValue (digitsValue 16 digits)))
  else none

def scanNumber (t : Text) : Option (YCPValue × Text) :=
  let (digits, rest) := longest isDigit t
  if isFloatTail rest then none
  else if digits = [48] ∧ rest.head? = some 120 then
    let (hex, rest) := longest isAlnum (rest.drop 1)
    (hexNumber hex).map fun v => (v, rest)
  else (plainNumber digits).map fun v => (v, rest)

def keyword (word : Text) : Option YCPValue :=
  if word = ascii "nil" then some .void
  else if word = ascii "true" then some (.boolean true)
  else if word = ascii "false" then some (.boolean false)
  else none

/-- A keyword, unless a longer identifier or a qualified one begins here. -/
def scanWord (t : Text) : Option (YCPValue × Text) :=
  let (word, rest) := longest isWordChar t
  if [58, 58].isPrefixOf rest then none else (keyword word).map fun v => (v, rest)

/-- The start condition `bybl`. -/
def scanBytes (bytes : List UInt8) : Text → Option (YCPValue × Text)
  | [] => none
  | [c] => if c = 93 then some (.byteblock bytes, []) else none
  | c :: d :: t =>
    if c = 93 then some (.byteblock bytes, d :: t)
    else if c = 9 ∨ c = 13 ∨ c = 32 ∨ c = 10 then scanBytes bytes (d :: t)
    else if isxdigit c && isxdigit d then
      scanBytes (bytes ++ [UInt8.ofNat (xdigitValue c * 16 + xdigitValue d)]) t
    else none

/-- The rest of a quoted segment of a path with its closing quote. -/
def scanQuoted : Text → Option (Text × Text)
  | [] => none
  | [c] => if c = 34 then some ([34], []) else none
  | c :: d :: t =>
    if c = 34 then some ([34], d :: t)
    else if c = 92 then
      if d = 10 then none else (scanQuoted t).map fun q => (92 :: d :: q.1, q.2)
    else (scanQuoted (d :: t)).map fun q => (c :: q.1, q.2)

/-- `PATHSEGMENT` -/
def scanSegment : Text → Option (Text × Text)
  | [] => none
  | c :: t =>
    if isAlpha c || c == 95 then
      let (segment, rest) := longest (fun c => isWordChar c || c == 45) t
      some (c :: segment, rest)
    else if c = 34 then (scanQuoted t).map fun q => (34 :: q.1, q.2)
    else none

/-- `(\.{PATHSEGMENT})*`, for at most this many segments. -/
def scanSegments : Nat → Text → Text × Text
  | 0, t => ([], t)
  | n + 1, t =>
    if t.head? = some 46 then
      match scanSegment (t.drop 1) with
      | none => ([], t)
      | some (segment, rest) =>
        let more := scanSegments n rest
        (46 :: (segment ++ more.1), more.2)
    else ([], t)

/-- A path constant, with the checks of the rule and of `yylex`; `t` follows the dot. -/
def scanPath (t : Text) : Option (YCPValue × Text) :=
  let (text, rest) := scanSegments (t.length + 1) (46 :: t)
  if text = [] then some (.path [], t)
  else if text.getLast? = some 45 then none
  else
    match parsePath (cut text) with
    | none => none
    | some path => if path = [] ∧ 1 < (cut text).length then none else some (.path path, rest)

/-- The names that match `SYMBOL`. -/
def isSymbolName (name : Text) : Bool :=
  name.all isWordChar && !((name.head?.map isDigit).getD true) && name != [95]

/-! ### Tokens -/

def constantToken (c : YCPValue × Text) : Token × Text := (.constant c.1, c.2)

def scan : Text → Option (Token × Text)
  | [] => none
  | c :: t =>
    if isspace c then scan t
    else if isDigit c then (scanNumber (c :: t)).map constantToken
    else if isAlpha c then (scanWord (c :: t)).map constantToken
    else if c = 34 then (scanString [] t).map fun s => (.constant (.string s.1), s.2)
    else if c = 35 then if t.head? = some 91 then (scanBytes [] (t.drop 1)).map constantToken else none
    else if c = 46 then (scanPath t).map constantToken
    else if c = 96 then
      let (name, rest) := longest isWordChar t
      if isSymbolName name then some (.symbol name, rest) else none
    else if c = 36 then if t.head? = some 91 then some (.mapExpr, t.drop 1) else none
    else if c = 93 then if t.head? = some 58 then some (.closeBracket, t.drop 1) else some (.char 93, t)
    else if c = 58 then if t.head? = some 58 then none else some (.char 58, t)
    else if c = 40 ∨ c = 41 ∨ c = 91 ∨ c = 44 ∨ c = 45 then some (.char c, t)
    else none

/-- The leaf that a text is scanned as: one constant, or a minus sign and an integer constant. -/
def scanLeaf (t : Text) : Option YCPValue :=
  match scan t with
  | some (.constant v, []) => some v
  | some (.char 45, t') =>
    match scan t' with
    | some (.constant (.integer j), []) => some (.integer (-j))
    | _ => none
  | _ => none

/-! ### What follows a constant -/

/-- A byte that no constant goes on with. -/
def isDelimiter (d : UInt8) : Bool := d == 44 || d == 93 || d == 41 || d == 58

lemma delimiter_cases {d : UInt8} (hd : isDelimiter d = true) : d = 44 ∨ d = 93 ∨ d = 41 ∨ d = 58 := by
  simpa [isDelimiter, or_assoc] using hd

/-- A byte that no constant goes on with, a blank or a line feed included. -/
def isStop (d : UInt8) : Bool := isDelimiter d || d == 10 || d == 32

lemma isStop_of_isDelimiter {d : UInt8} (hd : isDelimiter d = true) : isStop d = true := by
  rw [isStop, hd]
  rfl

lemma stop_cases {d : UInt8} (hd : isStop d = true) :
    d = 44 ∨ d = 93 ∨ d = 41 ∨ d = 58 ∨ d = 10 ∨ d = 32 := by
  rw [isStop, Bool.or_eq_true, Bool.or_eq_true, beq_iff_eq, beq_iff_eq] at hd
  rcases hd with (hd | rfl) | rfl
  · rcases delimiter_cases hd with rfl | rfl | rfl | rfl <;> simp
  · simp
  · simp

lemma isDigit_stop {d : UInt8} (hd : isStop d = true) : isDigit d = false := by
  rcases stop_cases hd with rfl | rfl | rfl | rfl | rfl | rfl <;> rfl

lemma isAlnum_stop {d : UInt8} (hd : isStop d = true) : isAlnum d = false := by
  rcases stop_cases hd with rfl | rfl | rfl | rfl | rfl | rfl <;> rfl

lemma isWordChar_stop {d : UInt8} (hd : isStop d = true) : isWordChar d = false := by
  rcases stop_cases hd with rfl | rfl | rfl | rfl | rfl | rfl <;> rfl

lemma isFloatTail_stop {d : UInt8} (hd : isStop d = true) (r : Text) :
    isFloatTail (d :: r) = false := by
  rcases stop_cases hd with rfl | rfl | rfl | rfl | rfl | rfl <;> cases r <;> rfl

lemma longest_append {p : UInt8 → Bool} {t : Text} {d : UInt8} (r : Text)
    (ht : ∀ c ∈ t, p c = true) (hd : p d = false) : longest p (t ++ d :: r) = (t, d :: r) := by
  have hstop : ¬ p d = true := by simp [hd]
  rw [longest, List.takeWhile_append_of_pos ht, List.dropWhile_append_of_pos ht,
    List.takeWhile_cons_of_neg hstop, List.dropWhile_cons_of_neg hstop, List.append_nil]

lemma longest_eq_self {p : UInt8 → Bool} {t : Text} (ht : ∀ c ∈ t, p c = true) :
    longest p t = (t, []) := by
  rw [longest, List.takeWhile_eq_self_iff.mpr ht, List.dropWhile_eq_nil_iff.mpr ht]

lemma forall_of_longest {p : UInt8 → Bool} {t : Text} (h : (longest p t).2 = []) :
    ∀ c ∈ t, p c = true :=
  List.dropWhile_eq_nil_iff.mp h

lemma longest_join (p : UInt8 → Bool) (t : Text) : (longest p t).1 ++ (longest p t).2 = t :=
  List.takeWhile_append_dropWhile

lemma longest_append_of_ne_nil {p : UInt8 → Bool} {t : Text} (r : Text) (h : (longest p t).2 ≠ []) :
    longest p (t ++ r) = ((longest p t).1, (longest p t).2 ++ r) := by
  obtain ⟨c, tail, htail⟩ := List.exists_cons_of_ne_nil h
  have hc : p c = false := by
    have hhead := List.head?_dropWhile_not p t
    change List.dropWhile p t = c :: tail at htail
    rw [htail] at hhead
    exact hhead
  have hword : ∀ c ∈ (longest p t).1, p c = true := fun c hc => List.mem_takeWhile_imp hc
  calc longest p (t ++ r) = longest p ((longest p t).1 ++ c :: (tail ++ r)) := by
        rw [← List.cons_append, ← htail, ← List.append_assoc, longest_join]
    _ = ((longest p t).1, (longest p t).2 ++ r) := by
        rw [longest_append _ hword hc, htail, List.cons_append]

lemma scanNumber_append {t : Text} {v : YCPValue} {d : UInt8} (r : Text)
    (h : scanNumber t = some (v, [])) (hd : isStop d = true) :
    scanNumber (t ++ d :: r) = some (v, d :: r) := by
  have hx : d ≠ 120 := by
    rintro rfl
    cases hd
  by_cases htail : (longest isDigit t).2 = []
  · have hdigits := forall_of_longest htail
    have hhex : ¬ (t = [48] ∧ (d :: r).head? = some 120) := by
      rintro ⟨-, hhead⟩
      exact hx (Option.some.inj hhead)
    rw [scanNumber, longest_eq_self hdigits] at h
    rw [scanNumber, longest_append r hdigits (isDigit_stop hd)]
    dsimp only at h ⊢
    rw [isFloatTail_stop hd, if_neg Bool.false_ne_true, if_neg hhex]
    rw [isFloatTail, if_neg Bool.false_ne_true, if_neg (by simp), Option.map_eq_some_iff] at h
    obtain ⟨w, hw, heq⟩ := h
    rw [hw, Option.map_some, (Prod.mk.inj heq).1]
  · obtain ⟨e, tail, heq⟩ := List.exists_cons_of_ne_nil htail
    have hpair : longest isDigit t = ((longest isDigit t).1, e :: tail) := by rw [← heq]
    rw [scanNumber, hpair] at h
    rw [scanNumber, longest_append_of_ne_nil _ htail, heq]
    dsimp only [List.cons_append] at h ⊢
    split at h
    · cases h
    split at h
    next hhex =>
      have he : e = 120 := Option.some.inj hhex.2
      subst he
      rw [List.drop_one, List.tail_cons, Option.map_eq_some_iff] at h
      obtain ⟨w, hw, hvalue⟩ := h
      have halnum := forall_of_longest (Prod.mk.inj hvalue).2
      rw [if_neg (by cases tail <;> simp [isFloatTail]), if_pos ⟨hhex.1, rfl⟩, List.drop_one,
        List.tail_cons, longest_append r halnum (isAlnum_stop hd)]
      rw [longest_eq_self halnum] at hw
      dsimp only
      rw [hw, Option.map_some, (Prod.mk.inj hvalue).1]
    next =>
      rw [Option.map_eq_some_iff] at h
      obtain ⟨w, -, hvalue⟩ := h
      cases (Prod.mk.inj hvalue).2

lemma isMapKey_of_keyword {word : Text} {v : YCPValue} (h : keyword word = some v) :
    v.isMapKey = false := by
  unfold keyword at h
  split at h
  · cases h
    rfl
  split at h
  · cases h
    rfl
  split at h
  · cases h
    rfl
  · cases h

lemma scanWord_append {t : Text} {v : YCPValue} {d : UInt8} (r : Text)
    (h : scanWord t = some (v, [])) (hd : isStop d = true)
    (hcolon : d = 58 → v.isMapKey = true) : scanWord (t ++ d :: r) = some (v, d :: r) := by
  rw [scanWord] at h
  dsimp only at h
  split at h
  · cases h
  rw [Option.map_eq_some_iff] at h
  obtain ⟨w, hw, hvalue⟩ := h
  obtain ⟨rfl, hrest⟩ := Prod.mk.inj hvalue
  have hword := forall_of_longest hrest
  have hqualified : ¬ ([58, 58] : Text).isPrefixOf (d :: r) = true := by
    intro hprefix
    have heq : d = 58 := by
      rw [List.isPrefixOf_cons_cons, Bool.and_eq_true, beq_iff_eq] at hprefix
      exact hprefix.1.symm
    have hkey := hcolon heq
    rw [isMapKey_of_keyword hw] at hkey
    cases hkey
  rw [longest_eq_self hword] at hw
  rw [scanWord, longest_append r hword (isWordChar_stop hd)]
  dsimp only at hw ⊢
  rw [if_neg hqualified, hw, Option.map_some]

lemma scanBytes_append {bytes : List UInt8} {t : Text} {v : YCPValue} {rest : Text} (r : Text)
    (h : scanBytes bytes t = some (v, rest)) : scanBytes bytes (t ++ r) = some (v, rest ++ r) := by
  fun_induction scanBytes bytes t with
  | case1 => cases h
  | case2 bytes =>
    cases h
    cases r <;> simp [scanBytes]
  | case3 => cases h
  | case4 bytes d t =>
    cases h
    simp [scanBytes]
  | case5 bytes c d t hc hspace ih =>
    rw [List.cons_append, List.cons_append, scanBytes, if_neg hc, if_pos hspace, ← List.cons_append]
    exact ih h
  | case6 bytes c d t hc hspace hhex ih =>
    rw [List.cons_append, List.cons_append, scanBytes, if_neg hc, if_neg hspace, if_pos hhex]
    exact ih h
  | case7 => cases h

lemma scanQuoted_append {t : Text} {q : Text × Text} (r : Text) (h : scanQuoted t = some q) :
    scanQuoted (t ++ r) = some (q.1, q.2 ++ r) := by
  fun_induction scanQuoted t generalizing q with
  | case1 => cases h
  | case2 =>
    cases h
    cases r <;> simp [scanQuoted]
  | case3 => cases h
  | case4 d t =>
    cases h
    simp [scanQuoted]
  | case5 => cases h
  | case6 d t hnewline hquote ih =>
    rw [Option.map_eq_some_iff] at h
    obtain ⟨q', hq', rfl⟩ := h
    rw [List.cons_append, List.cons_append, scanQuoted, if_neg hquote, if_pos rfl, if_neg hnewline,
      ih hq', Option.map_some]
  | case7 c d t hquote hback ih =>
    rw [Option.map_eq_some_iff] at h
    obtain ⟨q', hq', rfl⟩ := h
    rw [List.cons_append, List.cons_append, scanQuoted, if_neg hquote, if_neg hback, ← List.cons_append,
      ih hq', Option.map_some]

/-- A segment stays the same when the text goes on with a character that is not of it. -/
lemma scanSegment_append {t : Text} {q : Text × Text} {d : UInt8} (r : Text)
    (h : scanSegment t = some q) (hd : isStop d = true) :
    scanSegment (t ++ d :: r) = some (q.1, q.2 ++ d :: r) := by
  cases t with
  | nil => cases h
  | cons c t =>
    have hstop : (isWordChar d || d == 45) = false := by
      rcases stop_cases hd with rfl | rfl | rfl | rfl | rfl | rfl <;> rfl
    rw [scanSegment] at h
    rw [List.cons_append, scanSegment]
    split at h
    next halpha =>
      rw [if_pos halpha]
      by_cases htail : (longest (fun c => isWordChar c || c == 45) t).2 = []
      · have hall := forall_of_longest htail
        rw [longest_eq_self hall] at h
        cases h
        rw [longest_append r hall hstop]
        rfl
      · cases h
        rw [longest_append_of_ne_nil _ htail]
        rfl
    next halpha =>
      rw [if_neg halpha]
      split at h
      next hquote =>
        rw [Option.map_eq_some_iff] at h
        obtain ⟨q', hq', rfl⟩ := h
        rw [if_pos hquote, scanQuoted_append _ hq', Option.map_some]
      next => cases h

lemma scanSegments_stop {d : UInt8} (r : Text) (hd : isStop d = true) (n : Nat) :
    scanSegments n (d :: r) = ([], d :: r) := by
  have hdot : ¬ (d :: r).head? = some 46 := by
    intro heq
    rw [Option.some.inj heq] at hd
    cases hd
  cases n with
  | zero => rfl
  | succ n => rw [scanSegments, if_neg hdot]

lemma scanSegments_append {n : Nat} {t text : Text} {d : UInt8} (r : Text)
    (h : scanSegments n t = (text, [])) (hd : isStop d = true) (m : Nat) :
    scanSegments (n + m) (t ++ d :: r) = (text, d :: r) := by
  induction n generalizing t text with
  | zero =>
    obtain ⟨rfl, rfl⟩ := Prod.mk.inj h
    exact scanSegments_stop r hd _
  | succ n ih =>
    rw [scanSegments] at h
    split at h
    next hdot =>
      split at h
      next =>
        obtain ⟨-, rfl⟩ := Prod.mk.inj h
        cases hdot
      next segment rest hsegment =>
        obtain ⟨rfl, hrest⟩ := Prod.mk.inj h
        obtain ⟨c, t, rfl⟩ := List.exists_cons_of_ne_nil (show t ≠ [] by rintro rfl; cases hdot)
        rw [List.drop_one, List.tail_cons] at hsegment
        have hpair : scanSegments n rest = ((scanSegments n rest).1, []) := Prod.ext rfl hrest
        have hmore := ih hpair
        have hdot' : (c :: (t ++ d :: r)).head? = some 46 := hdot
        rw [Nat.add_right_comm, List.cons_append, scanSegments, if_pos hdot', List.drop_one,
          List.tail_cons, scanSegment_append r hsegment hd]
        dsimp only
        rw [hmore]
    next =>
      obtain ⟨rfl, rfl⟩ := Prod.mk.inj h
      exact scanSegments_stop r hd _

lemma scanSegment_stop {d : UInt8} (r : Text) (hd : isStop d = true) :
    scanSegment (d :: r) = none := by
  rcases stop_cases hd with rfl | rfl | rfl | rfl | rfl | rfl <;> rfl

lemma scanPath_append {t : Text} {v : YCPValue} {d : UInt8} (r : Text)
    (h : scanPath t = some (v, [])) (hd : isStop d = true) :
    scanPath (t ++ d :: r) = some (v, d :: r) := by
  have hfuel : (t ++ d :: r).length + 1 = t.length + 1 + (r.length + 1) := by
    rw [List.length_append, List.length_cons]
    omega
  rw [scanPath] at h
  cases hmatch : scanSegments (t.length + 1) (46 :: t) with
  | mk text rest =>
    rw [hmatch] at h
    dsimp only at h
    split at h
    next hempty =>
      obtain ⟨rfl, rfl⟩ := Prod.mk.inj (Option.some.inj h)
      have hroot : scanSegments (([] ++ d :: r).length + 1) (46 :: ([] ++ d :: r)) =
          ([], 46 :: ([] ++ d :: r)) := by
        rw [scanSegments, List.head?_cons, if_pos rfl, List.drop_one, List.tail_cons, List.nil_append,
          scanSegment_stop r hd]
      rw [scanPath, hroot]
      rfl
    next hempty =>
      have hrest : rest = [] := by
        split at h
        · cases h
        split at h
        · cases h
        · split at h
          · cases h
          · exact (Prod.mk.inj (Option.some.inj h)).2
      subst hrest
      rw [scanPath, hfuel, ← List.cons_append, scanSegments_append r hmatch hd]
      dsimp only
      rw [if_neg hempty]
      split at h
      · cases h
      rw [if_neg ‹_›]
      split at h
      · cases h
      next path hpath =>
        split at h
        · cases h
        · rw [if_neg ‹_›, (Prod.mk.inj (Option.some.inj h)).1]

lemma octalDigits_append {n : Nat} {t : Text} (r : Text) (h : (octalDigits n t).2 ≠ []) :
    octalDigits n (t ++ r) = ((octalDigits n t).1, (octalDigits n t).2 ++ r) := by
  induction n generalizing t with
  | zero => rfl
  | succ n ih =>
    cases t with
    | nil => exact absurd rfl h
    | cons d t =>
      rw [octalDigits] at h ⊢
      rw [List.cons_append, octalDigits]
      by_cases hd : isOctal d = true
      · rw [if_pos hd] at h ⊢
        rw [if_pos hd]
        dsimp only at h ⊢
        rw [ih h]
      · rw [if_neg hd, if_neg hd]
        rfl

lemma scanString_nil (buffer : Text) : scanString buffer [] = none := by
  rw [scanString.eq_def]

lemma scanString_append {buffer t : Text} {q : Text × Text} (r : Text)
    (h : scanString buffer t = some q) : scanString buffer (t ++ r) = some (q.1, q.2 ++ r) := by
  fun_induction scanString buffer t with
  | case1 => cases h
  | case2 buffer t =>
    cases h
    rw [List.cons_append, scanString.eq_def]
    rfl
  | case3 buffer t octal hdigits result hrange hquote ih =>
    have hrest : octal.2 ≠ [] := by
      intro hnil
      rw [hnil, scanString_nil] at h
      cases h
    rw [List.cons_append, scanString.eq_def]
    dsimp only
    rw [if_neg (by decide), if_pos rfl, octalDigits_append r hrest, if_pos hdigits, if_pos hrange]
    exact ih h
  | case4 buffer t octal hdigits result hrange hquote ih =>
    have hrest : octal.2 ≠ [] := by
      intro hnil
      rw [hnil, scanString_nil] at h
      cases h
    rw [List.cons_append, scanString.eq_def]
    dsimp only
    rw [if_neg (by decide), if_pos rfl, octalDigits_append r hrest, if_pos hdigits, if_neg hrange]
    exact ih h
  | case5 => cases h
  | case6 buffer d t hquote octal hdigits ih =>
    have hd : isOctal d = false := by
      by_contra hoctal
      rw [Bool.not_eq_false] at hoctal
      refine hdigits ?_
      simp [octal, octalDigits, hoctal]
    rw [List.cons_append, List.cons_append, scanString_escape _ _ hd]
    exact ih h
  | case7 buffer c t hquote hback ih =>
    rw [List.cons_append, scanString_plain _ _ hquote hback]
    exact ih h

/-- A constant is the same token before a byte that it does not go on with. -/
lemma scan_append {t : Text} {v : YCPValue} {d : UInt8} (r : Text)
    (h : scan t = some (.constant v, [])) (hd : isStop d = true)
    (hcolon : d = 58 → v.isMapKey = true) : scan (t ++ d :: r) = some (.constant v, d :: r) := by
  have hmap {o o' : Option (YCPValue × Text)} (ho : o.map constantToken = some (.constant v, []))
      (hstep : o = some (v, []) → o' = some (v, d :: r)) :
      o'.map constantToken = some (.constant v, d :: r) := by
    obtain ⟨⟨w, rest⟩, hw, hvalue⟩ := Option.map_eq_some_iff.mp ho
    cases hvalue
    rw [hstep hw]
    rfl
  induction t with
  | nil => cases h
  | cons c t ih =>
    rw [scan] at h
    rw [List.cons_append, scan]
    by_cases hspace : isspace c = true
    · rw [if_pos hspace] at h ⊢
      exact ih h
    rw [if_neg hspace] at h ⊢
    by_cases hdigit : isDigit c = true
    · rw [if_pos hdigit] at h ⊢
      exact hmap h fun h => scanNumber_append r h hd
    rw [if_neg hdigit] at h ⊢
    by_cases halpha : isAlpha c = true
    · rw [if_pos halpha] at h ⊢
      exact hmap h fun h => scanWord_append r h hd hcolon
    rw [if_neg halpha] at h ⊢
    by_cases hquote : c = 34
    · rw [if_pos hquote] at h ⊢
      obtain ⟨q, hq, hvalue⟩ := Option.map_eq_some_iff.mp h
      obtain ⟨htoken, hrest⟩ := Prod.mk.inj hvalue
      cases htoken
      rw [scanString_append _ hq, hrest]
      rfl
    rw [if_neg hquote] at h ⊢
    by_cases hbyteblock : c = 35
    · rw [if_pos hbyteblock] at h ⊢
      cases t with
      | nil => cases h
      | cons b t =>
        by_cases hopen : (b :: t).head? = some 91
        · rw [if_pos hopen] at h
          rw [if_pos (by exact hopen)]
          exact hmap h fun h => scanBytes_append _ h
        · rw [if_neg hopen] at h
          cases h
    rw [if_neg hbyteblock] at h ⊢
    by_cases hdot : c = 46
    · rw [if_pos hdot] at h ⊢
      exact hmap h fun h => scanPath_append r h hd
    rw [if_neg hdot] at h
    exact absurd h (by grind [longest])

end YastCore.Transport
