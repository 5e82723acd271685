import Mathlib.Data.Nat.Digits.Lemmas
import YastCore.Transport.Comments

/-!
# The texts of leaves

What the scanner makes of the text of each kind of leaf: the same value, but for the smallest integer
and for the components of a path that contain a NUL.
-/

namespace YastCore.Transport

open Lines

/-! ### Integers -/

lemma isDigit_digit : ∀ d < 10, isDigit (UInt8.ofNat (48 + d)) = true ∧
    xdigitValue (UInt8.ofNat (48 + d)) = d ∧ (UInt8.ofNat (48 + d) = 48 → d = 0) := by
  decide

lemma decimal_of_ne_zero {n : Nat} (hn : n ≠ 0) :
    decimal n = (Nat.digits 10 n).reverse.map fun d => UInt8.ofNat (48 + d) := if_neg hn

lemma isDigit_decimal (n : Nat) : ∀ c ∈ decimal n, isDigit c = true := by
  intro c hc
  by_cases hn : n = 0
  · subst hn
    rw [decimal, if_pos rfl, List.mem_singleton] at hc
    subst hc
    rfl
  · rw [decimal_of_ne_zero hn] at hc
    obtain ⟨d, hd, rfl⟩ := List.mem_map.mp hc
    exact (isDigit_digit d (Nat.digits_lt_base (by omega) (List.mem_reverse.mp hd))).1

lemma foldl_digits (base n : Nat) (digits : Text) :
    digits.foldl (fun n d => base * n + xdigitValue d) n =
      n * base ^ digits.length + digitsValue base digits := by
  induction digits generalizing n with
  | nil => simp [digitsValue]
  | cons d digits ih =>
    rw [digitsValue, List.foldl_cons, List.foldl_cons, ih, ih (base * 0 + xdigitValue d), List.length_cons,
      pow_succ]
    ring

lemma digitsValue_append (base : Nat) (a b : Text) :
    digitsValue base (a ++ b) = digitsValue base a * base ^ b.length + digitsValue base b := by
  rw [digitsValue, List.foldl_append, foldl_digits, ← digitsValue]

/-- Horner's rule from the front is the value of the digits from the back. -/
lemma digitsValue_map_digits {base : Nat} {digit : Nat → UInt8}
    (hdigit : ∀ d < base, xdigitValue (digit d) = d) {l : List Nat} (hl : ∀ d ∈ l, d < base) :
    digitsValue base (l.reverse.map digit) = Nat.ofDigits base l := by
  induction l with
  | nil => rfl
  | cons d l ih =>
    rw [List.forall_mem_cons] at hl
    have hlast : digitsValue base [digit d] = d := by
      rw [digitsValue, List.foldl_cons, List.foldl_nil, hdigit d hl.1, Nat.mul_zero, Nat.zero_add]
    rw [List.reverse_cons, List.map_append, List.map_singleton, digitsValue_append, ih hl.2, hlast,
      Nat.ofDigits_cons, List.length_singleton, pow_one]
    ring

lemma digitsValue_decimal {n : Nat} (hn : n ≠ 0) : digitsValue 10 (decimal n) = n := by
  rw [decimal_of_ne_zero hn, digitsValue_map_digits (fun d hd => (isDigit_digit d hd).2.1)
    (fun d hd => Nat.digits_lt_base (by omega) hd), Nat.ofDigits_digits]

/-- A number other than zero has no leading zero. -/
lemma head_decimal {n : Nat} (hn : n ≠ 0) : (decimal n).head? ≠ some 48 := by
  have hdigits : Nat.digits 10 n ≠ [] := Nat.digits_ne_nil_iff_ne_zero.mpr hn
  have hlast := Nat.getLast_digit_ne_zero 10 hn
  intro hhead
  rw [decimal_of_ne_zero hn, List.head?_map, List.head?_reverse, List.getLast?_eq_getLast_of_ne_nil hdigits,
    Option.map_some, Option.some.injEq] at hhead
  have hlt := Nat.digits_lt_base (show 1 < 10 by omega) (List.getLast_mem hdigits)
  exact hlast ((isDigit_digit _ hlt).2.2 hhead)

lemma plainNumber_decimal (n : Nat) : plainNumber (decimal n) = some (.integer (signedValue n)) := by
  by_cases hn : n = 0
  · subst hn
    rfl
  · rw [plainNumber, if_neg (head_decimal hn), digitsValue_decimal hn]

lemma decimal_ne_nil (n : Nat) : decimal n ≠ [] := by
  by_cases hn : n = 0
  · rw [decimal, if_pos hn]
    exact List.cons_ne_nil _ _
  · intro hnil
    have hvalue := digitsValue_decimal hn
    rw [hnil] at hvalue
    exact hn hvalue.symm

lemma isspace_of_isDigit {c : UInt8} (h : isDigit c = true) : isspace c = false := by
  simp only [isDigit, Bool.and_eq_true, decide_eq_true_eq, UInt8.le_iff_toNat_le, UInt8.reduceToNat] at h
  simp only [isspace, Bool.or_eq_false_iff, beq_eq_false_iff_ne, ne_eq, Bool.and_eq_false_iff,
    decide_eq_false_iff_not, UInt8.le_iff_toNat_le, UInt8.reduceToNat, ← UInt8.toNat_inj]
  omega

lemma scan_decimal (n : Nat) : scan (decimal n) = some (.constant (.integer (signedValue n)), []) := by
  have hdigits := isDigit_decimal n
  obtain ⟨c, t, ht⟩ := List.exists_cons_of_ne_nil (decimal_ne_nil n)
  have hc : isDigit c = true := hdigits c (by rw [ht]; exact List.mem_cons_self)
  have hnumber : scanNumber (decimal n) = some (.integer (signedValue n), []) := by
    rw [scanNumber, longest_eq_self hdigits]
    dsimp only
    rw [isFloatTail, if_neg Bool.false_ne_true, if_neg (by simp), plainNumber_decimal]
    rfl
  rw [ht, scan, isspace_of_isDigit hc, if_neg Bool.false_ne_true, if_pos hc, ← ht, hnumber]
  rfl

/-- The integer that the text of an integer is read as: `atoll` does not get as far as 2^63. -/
def readInteger (i : Int64) : Int64 := if i = Int64.minValue then -Int64.maxValue else i

lemma scanLeaf_integer (i : Int64) :
    scanLeaf (integerToText i) = some (.integer (readInteger i)) := by
  have hmin := i.minValue_le_toInt
  have hmax := i.toInt_le
  rw [Int64.toInt_minValue] at hmin
  rw [Int64.toInt_maxValue] at hmax
  by_cases hneg : i.toInt < 0
  · have hminus : scan (45 :: decimal i.toInt.natAbs) = some (.char 45, decimal i.toInt.natAbs) := rfl
    have hvalue : -signedValue i.toInt.natAbs = readInteger i := by
      by_cases hi : i = Int64.minValue
      · subst hi
        rfl
      · have hne : i.toInt ≠ -2 ^ 63 := fun heq => hi (Int64.toInt.inj heq)
        apply Int64.toInt.inj
        rw [readInteger, if_neg hi, signedValue, Int64.toInt_neg_ofNat_of_le (by omega)]
        omega
    rw [integerToText, if_pos hneg, scanLeaf, hminus]
    simp only [scan_decimal, hvalue]
  · have hi : i ≠ Int64.minValue := by
      rintro rfl
      exact hneg Int64.toInt_minValue_lt_zero
    have hvalue : signedValue i.toInt.natAbs = i := by
      apply Int64.toInt.inj
      rw [signedValue, Int64.toInt_ofNat_of_lt (by omega)]
      omega
    rw [integerToText, if_neg hneg, scanLeaf, scan_decimal, hvalue, readInteger, if_neg hi]

/-! ### Strings -/

lemma scanString_escapeChar (buffer : Text) {c : UInt8} (text : Text) (h : c ≠ 0) :
    scanString buffer (escapeChar c ++ text) = scanString (buffer ++ [c]) text := by
  unfold escapeChar
  by_cases hnewline : c = 10
  · subst hnewline
    exact scanString_escape buffer text (by decide)
  by_cases htab : c = 9
  · subst htab
    exact scanString_escape buffer text (by decide)
  by_cases hreturn : c = 13
  · subst hreturn
    exact scanString_escape buffer text (by decide)
  by_cases hfeed : c = 12
  · subst hfeed
    exact scanString_escape buffer text (by decide)
  by_cases hback : c = 8
  · subst hback
    exact scanString_escape buffer text (by decide)
  rw [if_neg hnewline, if_neg htab, if_neg hreturn, if_neg hfeed, if_neg hback]
  by_cases hcontrol : c < 32
  · rw [if_pos hcontrol]
    exact scanString_octal buffer text h
  rw [if_neg hcontrol]
  by_cases hquote : c = 34
  · subst hquote
    exact scanString_escape buffer text (by decide)
  by_cases hbackslash : c = 92
  · subst hbackslash
    exact scanString_escape buffer text (by decide)
  rw [if_neg (by rintro (heq | heq) <;> contradiction)]
  exact scanString_plain buffer text hquote hbackslash

lemma scanString_flatMap_escapeChar (buffer rest : Text) {v : Text} (h : 0 ∉ v) :
    scanString buffer (v.flatMap escapeChar ++ 34 :: rest) = some (cut (buffer ++ v), rest) := by
  induction v generalizing buffer with
  | nil =>
    rw [List.flatMap_nil, List.nil_append, scanString.eq_def]
    simp only [if_true, List.append_nil]
  | cons c v ih =>
    rw [List.mem_cons, not_or] at h
    rw [List.flatMap_cons, List.append_assoc, scanString_escapeChar buffer _ (Ne.symm h.1), ih _ h.2,
      List.append_assoc, List.singleton_append]

lemma scanLeaf_string {v : Text} (h : 0 ∉ v) : scanLeaf (stringToText v) = some (.string v) := by
  have hcut : cut v = v := cut_eq_self.mpr h
  have hscan : scan (stringToText v) = some (.constant (.string v), []) := by
    show (scanString [] ((cut v).flatMap escapeChar ++ [34])).map _ = _
    rw [hcut, scanString_flatMap_escapeChar [] [] h, List.nil_append, hcut]
    rfl
  rw [scanLeaf, hscan]

/-! ### Byteblocks -/

lemma isxdigit_not_space {c : UInt8} (h : isxdigit c = true) :
    c ≠ 93 ∧ ¬ (c = 9 ∨ c = 13 ∨ c = 32 ∨ c = 10) := by
  refine ⟨?_, ?_⟩
  · rintro rfl
    cases h
  · rintro (rfl | rfl | rfl | rfl) <;> cases h

lemma scanBytes_byte (bytes : List UInt8) (b : UInt8) (t : Text) :
    scanBytes bytes (hexDigit (b.toNat / 16) :: hexDigit (b.toNat % 16) :: t) =
      scanBytes (bytes ++ [b]) t := by
  have hb := b.toNat_lt
  have hhigh := hexDigit_spec (b.toNat / 16) (by omega)
  have hlow := hexDigit_spec (b.toNat % 16) (by omega)
  have hplain := isxdigit_not_space hhigh.1
  have hvalue : UInt8.ofNat (b.toNat / 16 * 16 + b.toNat % 16) = b := by
    rw [Nat.div_add_mod']
    exact UInt8.ofNat_toNat
  rw [scanBytes, if_neg hplain.1, if_neg hplain.2, hhigh.1, hlow.1, Bool.and_self, if_pos rfl,
    hhigh.2.1, hlow.2.1, hvalue]

lemma scanBytes_bytesToText (bytes acc : List UInt8) (position : Nat) :
    scanBytes acc (bytesToText position bytes ++ [93]) = some (.byteblock (acc ++ bytes), []) := by
  induction bytes generalizing acc position with
  | nil =>
    rw [bytesToText, List.append_nil]
    rfl
  | cons b bytes ih =>
    rw [bytesToText, List.cons_append, List.cons_append, scanBytes_byte]
    split
    · have hblank : scanBytes (acc ++ [b]) (32 :: (bytesToText 0 bytes ++ [93])) =
          scanBytes (acc ++ [b]) (bytesToText 0 bytes ++ [93]) := by
        cases bytesToText 0 bytes <;> rfl
      rw [List.cons_append, hblank, ih, List.append_assoc, List.singleton_append]
    · rw [ih, List.append_assoc, List.singleton_append]

lemma scanLeaf_byteblock (bytes : List UInt8) :
    scanLeaf (ascii "#[" ++ (bytesToText 0 bytes ++ [93])) = some (.byteblock bytes) := by
  have hscan : scan (ascii "#[" ++ (bytesToText 0 bytes ++ [93])) =
      some (.constant (.byteblock bytes), []) := by
    show (scanBytes [] (bytesToText 0 bytes ++ [93])).map constantToken = _
    rw [scanBytes_bytesToText, List.nil_append]
    rfl
  rw [scanLeaf, hscan]

/-! ### Paths -/

lemma pathToText_cons (isprint : UInt8 → Bool) (p : List PathComponent) :
    ∃ t, pathToText isprint p = 46 :: t := by
  unfold pathToText
  cases p with
  | nil => exact ⟨[], rfl⟩
  | cons c p => exact ⟨_, by rw [if_neg (List.cons_ne_nil c p), List.flatMap_cons, List.cons_append]⟩

lemma scanPath_pathToText {isprint : UInt8 → Bool} {p : List PathComponent} {t : Text} {v : YCPValue}
    (htext : pathToText isprint p = 46 :: t) (h : scanPath t = some (v, [])) :
    v = .path (p.map PathComponent.carried) := by
  have hparse := parsePath_pathToText isprint p
  have hcut := cut_eq_self.mpr (zero_not_mem_pathToText isprint p)
  have hjoin := scanSegments_join (t.length + 1) (46 :: t)
  rw [htext] at hparse hcut
  rw [scanPath] at h
  dsimp only at h
  split at h
  · cases h
    have hroot : p.map PathComponent.carried = [] := (Option.some.inj hparse).symm
    rw [hroot]
  split at h
  · cases h
  split at h
  · cases h
  next path hpath =>
    split at h
    · cases h
    · obtain ⟨hv, hrest⟩ := Prod.mk.inj (Option.some.inj h)
      rw [hrest, List.append_nil] at hjoin
      rw [hjoin, hcut, hparse] at hpath
      rw [← hv, Option.some.inj hpath]

/-- A path that the scanner accepts is read as what its text keeps of it. -/
lemma scanLeaf_path {isprint : UInt8 → Bool} {p : List PathComponent}
    (h : (scanLeaf (pathToText isprint p)).isSome = true) :
    scanLeaf (pathToText isprint p) = some (.path (p.map PathComponent.carried)) := by
  obtain ⟨t, htext⟩ := pathToText_cons isprint p
  have hscan : scan (pathToText isprint p) = (scanPath t).map constantToken := by
    rw [htext]
    rfl
  rw [scanLeaf, hscan] at h ⊢
  cases hpath : scanPath t with
  | none =>
    rw [hpath] at h
    cases h
  | some q =>
    obtain ⟨v, rest⟩ := q
    rw [hpath] at h
    cases rest with
    | nil =>
      rw [scanPath_pathToText htext hpath]
      rfl
    | cons c rest => cases h

/-! ### One line -/

/-- The text is a C string without a line feed. -/
def OneLine (t : Text) : Prop := ∀ c ∈ t, c ≠ 0 ∧ c ≠ newline

lemma OneLine.append {t t' : Text} (h : OneLine t) (h' : OneLine t') : OneLine (t ++ t') := by
  intro c hc
  rcases List.mem_append.mp hc with hc | hc
  · exact h c hc
  · exact h' c hc

lemma OneLine.cons {c : UInt8} {t : Text} (hc : c ≠ 0 ∧ c ≠ newline) (h : OneLine t) : OneLine (c :: t) :=
  List.forall_mem_cons.mpr ⟨hc, h⟩

lemma oneLine_nil : OneLine [] := List.forall_mem_nil _

lemma oneLine_of_all {p : UInt8 → Bool} {t : Text} (hzero : p 0 = false) (hline : p newline = false)
    (h : ∀ c ∈ t, p c = true) : OneLine t := by
  intro c hc
  have hp := h c hc
  refine ⟨?_, ?_⟩
  · rintro rfl
    rw [hzero] at hp
    cases hp
  · rintro rfl
    rw [hline] at hp
    cases hp

lemma oneLine_flatMap {f : UInt8 → Text} {t : Text} (h : ∀ c ∈ t, OneLine (f c)) : OneLine (t.flatMap f) := by
  intro c hc
  obtain ⟨b, hb, hc⟩ := List.mem_flatMap.mp hc
  exact h b hb c hc

lemma oneLine_hexDigit : ∀ n < 16, hexDigit n ≠ 0 ∧ hexDigit n ≠ newline := by
  decide

lemma oneLine_integerToText (i : Int64) : OneLine (integerToText i) := by
  have hdecimal : OneLine (decimal i.toInt.natAbs) := oneLine_of_all rfl rfl (isDigit_decimal _)
  unfold integerToText
  split
  · exact hdecimal.cons (by decide)
  · exact hdecimal

lemma oneLine_escapeChar {c : UInt8} (hc : c ≠ 0) : OneLine (escapeChar c) := by
  have hoctal : OneLine (octal3 c) := by
    have hc := c.toNat_lt
    have hdigit : ∀ k < 8, UInt8.ofNat (48 + k) ≠ 0 ∧ UInt8.ofNat (48 + k) ≠ newline := by decide
    have hhigh := hdigit (c.toNat / 64) (by omega)
    have hmid := hdigit (c.toNat / 8 % 8) (by omega)
    have hlow := hdigit (c.toNat % 8) (by omega)
    exact oneLine_nil.cons hlow |>.cons hmid |>.cons hhigh
  by_cases hnewline : c = newline
  · subst hnewline
    exact oneLine_nil.cons (by decide) |>.cons (by decide)
  unfold escapeChar
  split
  · exact oneLine_nil.cons (by decide) |>.cons (by decide)
  split
  · exact oneLine_nil.cons (by decide) |>.cons (by decide)
  split
  · exact oneLine_nil.cons (by decide) |>.cons (by decide)
  split
  · exact oneLine_nil.cons (by decide) |>.cons (by decide)
  split
  · exact oneLine_nil.cons (by decide) |>.cons (by decide)
  split
  · exact hoctal.cons (by decide)
  split
  · exact oneLine_nil.cons ⟨hc, hnewline⟩ |>.cons (by decide)
  · exact oneLine_nil.cons ⟨hc, hnewline⟩

lemma oneLine_stringToText (v : Text) : OneLine (stringToText v) := by
  have hbody : OneLine ((cut v).flatMap escapeChar) := by
    refine oneLine_flatMap fun c hc => oneLine_escapeChar ?_
    rintro rfl
    exact zero_not_mem_cut v hc
  exact (hbody.append (oneLine_nil.cons (by decide))).cons (by decide)

lemma oneLine_bytesToText (bytes : List UInt8) (position : Nat) : OneLine (bytesToText position bytes) := by
  induction bytes generalizing position with
  | nil => exact oneLine_nil
  | cons b bytes ih =>
    have hb := b.toNat_lt
    have hrest : OneLine (if position = 31 then 32 :: bytesToText 0 bytes
        else bytesToText (position + 1) bytes) := by
      split
      · exact (ih 0).cons (by decide)
      · exact ih (position + 1)
    exact (hrest.cons (oneLine_hexDigit _ (by omega))).cons (oneLine_hexDigit _ (by omega))

lemma newline_not_mem_escapePathChar (isprint : UInt8 → Bool) (c : UInt8) :
    newline ∉ escapePathChar isprint c := by
  have hc := c.toNat_lt
  by_cases hnewline : c = newline
  · subst hnewline
    show newline ∉ ([92, 110] : Text)
    decide
  rcases escapePathChar_cases isprint c with ⟨d, -, hd, h⟩ | ⟨-, -, h⟩ | h
  · have hdne : d ≠ newline := by
      rintro rfl
      exact hnewline hd.symm
    rw [h]
    simp only [List.mem_cons, List.not_mem_nil, or_false, not_or]
    exact ⟨by decide, hdne.symm⟩
  · rw [h, List.mem_singleton]
    exact Ne.symm hnewline
  · have hhigh := (oneLine_hexDigit (c.toNat / 16) (by omega)).2
    have hlow := (oneLine_hexDigit (c.toNat % 16) (by omega)).2
    rw [h]
    simp only [List.mem_cons, List.not_mem_nil, or_false, not_or]
    exact ⟨by decide, by decide, hhigh.symm, hlow.symm⟩

lemma newline_not_mem_pathToText (isprint : UInt8 → Bool) (p : List PathComponent) :
    newline ∉ pathToText isprint p := by
  unfold pathToText
  split
  · decide
  rw [List.mem_flatMap]
  rintro ⟨c, -, h⟩
  rw [List.mem_cons] at h
  rcases h with h | h
  · cases h
  unfold PathComponent.toText at h
  split at h
  · simp only [List.mem_cons, List.mem_append, List.mem_flatMap, List.not_mem_nil, or_false] at h
    rcases h with h | ⟨d, -, hd⟩ | h
    · cases h
    · exact newline_not_mem_escapePathChar isprint d hd
    · cases h
  next hsimple =>
    rw [Bool.not_eq_true] at hsimple
    have hchar := (simpleComponent_spec (c.simple_text hsimple)).2.1 newline h
    cases hchar

lemma oneLine_pathToText (isprint : UInt8 → Bool) (p : List PathComponent) :
    OneLine (pathToText isprint p) := by
  intro c hc
  refine ⟨?_, ?_⟩
  · rintro rfl
    exact zero_not_mem_pathToText isprint p hc
  · rintro rfl
    exact newline_not_mem_pathToText isprint p hc

lemma oneLine_symbolName {name : Text} (hname : isSymbolName name = true) : OneLine name := by
  rw [isSymbolName, Bool.and_eq_true, Bool.and_eq_true, List.all_eq_true] at hname
  exact oneLine_of_all rfl rfl hname.1.1

end YastCore.Transport
