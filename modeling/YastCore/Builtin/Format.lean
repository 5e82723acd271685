import Mathlib.Data.Finset.Card
import Mathlib.Data.Nat.Bitwise
import Mathlib.Data.Nat.Count
import Mathlib.Order.Interval.Finset.Nat
import YastCore.Lib.Lines
import YastCore.Type.Basic
import YastCore.Value.Path

/-!
# Format strings

`sformat` and the check that `YEBuiltin::finalize` makes of its format. Both go over the C string with a
cursor that a selector moves twice. The memory they may read ends with the NUL of the string.
-/

namespace YastCore

open Lines YCPValue

def percent : UInt8 := 37

/-- The bytes from `c_str()` on, up to the terminating NUL and with it. -/
def cString (t : Text) : Text := cut t ++ [0]

/-- The number of `%1` to `%9`. -/
def selectorNumber (c : UInt8) : Option ℕ := if 49 ≤ c && c ≤ 57 then some (c.toNat - 48) else none

/-! ### The formatter -/

inductive FormatWarning where
  | illegalArgument (number max : ℕ)
  | missingNumber

/-- The result so far, the positions of the arguments put into it, and the warnings. -/
structure Formatted where
  result : Text
  used : List ℕ
  warnings : List FormatWarning

section

variable (toText : YCPValue → Text) (argv : List YCPValue)

def argumentText : YCPValue → Text
  | null => ascii "<NULL>"
  | string v => v
  | v => toText v

def formatArgument (num : ℕ) (f : Formatted) : Formatted :=
  match argv[num]? with
  | none => { f with warnings := f.warnings ++ [.illegalArgument (num + 1) argv.length] }
  | some v => { f with result := f.result ++ argumentText toText v, used := f.used ++ [num] }

/-- The character that follows a `%`. -/
def formatSelector (c : UInt8) (f : Formatted) : Formatted :=
  if c = percent then { f with result := f.result ++ [percent] }
  else
    match selectorNumber c with
    | some number => formatArgument toText argv (number - 1) f
    | none => { f with warnings := f.warnings ++ [.missingNumber] }

/-- The loop of `s_sformat`, with the memory from the cursor on; `none` when it reads behind its end. -/
def formatLoop (f : Formatted) : Text → Option Formatted
  | [] => none
  | c :: read =>
    if c = 0 then some f
    else if c = percent then
      match read with
      | [] => none
      | c :: read => formatLoop (formatSelector toText argv c f) read
    else formatLoop { f with result := f.result ++ [c] } read

end

def sSformat (toText : YCPValue → Text) (format argv : YCPValue) : Option YCPValue :=
  match format, argv with
  | string format, list argv =>
    (formatLoop toText argv ⟨[], [], []⟩ (cString format)).map fun f => string f.result
  | string format, _ => some (string format)
  | _, _ => some null

/-! ### The check -/

/-- The code of the first parameter. -/
inductive FormatCode where
  | string (v : Text)
  | locale (v : Text)
  | other

inductive FormatScan where
  | outside
  | badSelector
  | scanned (mask : ℕ)
deriving DecidableEq

/-- The bits of the mask. -/
def maskBits : ℕ := 64

def setSelector (mask number : ℕ) : ℕ := if maskBits ≤ number then mask else mask ||| 1 <<< (number - 1)

/-- The loop that collects the numbers, with the memory from `cptr` on. -/
def formatScan (mask : ℕ) : Text → FormatScan
  | [] => .outside
  | c :: cptr =>
    if c = 0 then .scanned mask
    else if c = percent then
      match cptr with
      | [] => .outside
      | c :: cptr =>
        match selectorNumber c with
        | some number => formatScan (setSelector mask number) cptr
        | none => if c = percent then formatScan mask cptr else .badSelector
    else formatScan mask cptr

/-- The loop that counts the bits of the mask, which has so many left. -/
def countSelectors : ℕ → ℕ → ℕ
  | 0, _ => 0
  | bits + 1, mask => if mask = 0 then 0 else mask % 2 + countSelectors bits (mask / 2)

/-- `Type::Error` -/
def errorType : YType := .base .errorT unqualified

/-- `finalize` of a builtin with a format, behind the search for its declaration: `none` for 0. -/
def finalizeFormat (formatcode : Option FormatCode) (parameters : ℕ) : Option YType :=
  let check (v : Text) : Option YType :=
    match formatScan 0 (cString v) with
    | .scanned mask => if countSelectors maskBits mask = parameters then none else some errorType
    | _ => some errorType
  match formatcode with
  | none => some errorType
  | some (.string v) => check v
  | some (.locale v) => check v
  | some .other => none

/-! ### The selectors of a format -/

inductive FormatPiece where
  | char (c : UInt8)
  | selector (c : UInt8)
deriving DecidableEq

/-- The characters and the selectors. Behind the last `%` there may be nothing. -/
def formatPieces : Text → List FormatPiece
  | [] => []
  | c :: rest =>
    if c = percent then
      match rest with
      | [] => []
      | s :: rest => .selector s :: formatPieces rest
    else .char c :: formatPieces rest

/-- The last `%` is not the second one of a selector, and no character follows it. -/
def dangling : Text → Bool
  | [] => false
  | c :: rest =>
    if c = percent then
      match rest with
      | [] => true
      | _ :: rest => dangling rest
    else dangling rest

lemma formatPieces_char {c : UInt8} (hc : c ≠ percent) (rest : Text) :
    formatPieces (c :: rest) = .char c :: formatPieces rest := by
  rw [formatPieces.eq_def]
  simp only [if_neg hc]

lemma dangling_char {c : UInt8} (hc : c ≠ percent) (rest : Text) : dangling (c :: rest) = dangling rest := by
  rw [dangling.eq_def]
  simp only [if_neg hc]

def FormatPiece.number : FormatPiece → Option ℕ
  | char _ => none
  | selector c => selectorNumber c

def FormatPiece.isBad : FormatPiece → Bool
  | char _ => false
  | selector c => c != percent && (selectorNumber c).isNone

@[simp] lemma number_char (c : UInt8) : (FormatPiece.char c).number = none := rfl

@[simp] lemma number_selector (c : UInt8) : (FormatPiece.selector c).number = selectorNumber c := rfl

@[simp] lemma isBad_char (c : UInt8) : (FormatPiece.char c).isBad = false := rfl

@[simp] lemma isBad_selector (c : UInt8) :
    (FormatPiece.selector c).isBad = (c != percent && (selectorNumber c).isNone) := rfl

/-- The numbers that a format refers to. -/
def selectorNumbers (format : Text) : Finset ℕ := ((formatPieces format).filterMap FormatPiece.number).toFinset

/-- A `%` is followed neither by a number nor by a second `%`. -/
def hasBadSelector (format : Text) : Bool := dangling format || (formatPieces format).any FormatPiece.isBad

section

variable (toText : YCPValue → Text) (argv : List YCPValue)

/-- The text in the place of a piece, as the documentation has it. -/
def FormatPiece.text : FormatPiece → Text
  | char c => [c]
  | selector c =>
    if c = percent then [percent]
    else
      match selectorNumber c with
      | some number => ((argv[number - 1]?).map (argumentText toText)).getD []
      | none => []

def substituted (format : Text) : Text := (formatPieces format).flatMap (FormatPiece.text toText argv)

/-- What one piece does to the result of the formatter. -/
def FormatPiece.apply (f : Formatted) : FormatPiece → Formatted
  | char c => { f with result := f.result ++ [c] }
  | selector c => formatSelector toText argv c f

/-- At run time every number refers to an argument, no selector is bad, and every argument is used. -/
def FormatsSoundly (format : Text) (parameters : ℕ) : Prop :=
  ∀ argv : List YCPValue, argv.length = parameters →
    ∃ f, formatLoop toText argv ⟨[], [], []⟩ (cString format) = some f ∧ f.warnings = [] ∧
      ∀ i < parameters, i ∈ f.used

end

/-- The check takes as many different numbers as there are parameters, but the numbers are not those of
the parameters. -/
def NumbersMissed (format : Text) (parameters : ℕ) : Prop :=
  hasBadSelector format = false ∧ (selectorNumbers format).card = parameters ∧
    selectorNumbers format ≠ Finset.Icc 1 parameters

/-! ### The loops follow the pieces -/

section

variable {toText : YCPValue → Text} {argv : List YCPValue}

lemma formatLoop_char {c : UInt8} (hzero : c ≠ 0) (hc : c ≠ percent) (f : Formatted) (read : Text) :
    formatLoop toText argv f (c :: read) = formatLoop toText argv { f with result := f.result ++ [c] } read := by
  rw [formatLoop.eq_def]
  simp only [if_neg hzero, if_neg hc]

lemma formatScan_char {c : UInt8} (hzero : c ≠ 0) (hc : c ≠ percent) (mask : ℕ) (cptr : Text) :
    formatScan mask (c :: cptr) = formatScan mask cptr := by
  rw [formatScan.eq_def]
  simp only [if_neg hzero, if_neg hc]

/-- Within the memory of the string, the formatter fails exactly where the last `%` is alone. -/
theorem formatLoop_eq (format : Text) (h : 0 ∉ format) (f : Formatted) :
    formatLoop toText argv f (format ++ [0]) =
      if dangling format then none else some ((formatPieces format).foldl (FormatPiece.apply toText argv) f) := by
  induction format using formatPieces.induct generalizing f with
  | case1 => simp [formatLoop, dangling, formatPieces]
  | case2 =>
    simp [formatLoop, dangling, percent]
  | case3 s rest ih =>
    have hrest : 0 ∉ rest := fun hmem => h (by simp [hmem])
    have hzero : percent ≠ 0 := by decide
    rw [List.cons_append, List.cons_append, formatLoop, if_neg hzero, if_pos rfl, ih hrest, dangling, if_pos rfl,
      formatPieces, if_pos rfl, List.foldl_cons, FormatPiece.apply]
  | case4 c rest hc ih =>
    have hrest : 0 ∉ rest := fun hmem => h (by simp [hmem])
    have hzero : c ≠ 0 := fun heq => h (by simp [heq])
    rw [List.cons_append, formatLoop_char hzero hc, ih hrest, dangling_char hc, formatPieces_char hc,
      List.foldl_cons, FormatPiece.apply]

/-- The bits for the numbers of the pieces. -/
def selectorMask (mask : ℕ) (pieces : List FormatPiece) : ℕ :=
  (pieces.filterMap FormatPiece.number).foldl setSelector mask

theorem formatScan_eq (format : Text) (h : 0 ∉ format) (mask : ℕ) :
    formatScan mask (format ++ [0]) =
      if hasBadSelector format then .badSelector else .scanned (selectorMask mask (formatPieces format)) := by
  induction format using formatPieces.induct generalizing mask with
  | case1 => simp [formatScan, hasBadSelector, dangling, formatPieces, selectorMask]
  | case2 => simp [formatScan, hasBadSelector, dangling, percent, selectorNumber]
  | case3 s rest ih =>
    have hrest : 0 ∉ rest := fun hmem => h (by simp [hmem])
    have hzero : percent ≠ 0 := by decide
    rw [List.cons_append, List.cons_append, formatScan, if_neg hzero, if_pos rfl]
    simp only [hasBadSelector, dangling, formatPieces, if_true, List.any_cons, selectorMask,
      isBad_selector] at ih ⊢
    cases hnumber : selectorNumber s with
    | some number => simp [ih hrest, hnumber]
    | none =>
      by_cases hs : s = percent
      · simp [hs, ih hrest, selectorNumber, percent]
      · simp [hs]
  | case4 c rest hc ih =>
    have hrest : 0 ∉ rest := fun hmem => h (by simp [hmem])
    have hzero : c ≠ 0 := fun heq => h (by simp [heq])
    rw [List.cons_append, formatScan_char hzero hc, ih hrest]
    simp only [hasBadSelector, dangling_char hc, formatPieces_char hc, List.any_cons, isBad_char, Bool.false_or,
      selectorMask, List.filterMap_cons_none (number_char c)]
    rfl

/-- A piece puts its text to the result. -/
lemma apply_result (f : Formatted) (piece : FormatPiece) :
    (piece.apply toText argv f).result = f.result ++ piece.text toText argv := by
  cases piece with
  | char c => rfl
  | selector c =>
    rw [FormatPiece.apply, FormatPiece.text, formatSelector]
    by_cases hc : c = percent
    · rw [if_pos hc, if_pos hc]
    · rw [if_neg hc, if_neg hc]
      cases selectorNumber c with
      | none => simp
      | some number =>
        simp only [formatArgument]
        cases argv[number - 1]? with
        | none => simp
        | some v => simp

lemma foldl_apply_result (pieces : List FormatPiece) (f : Formatted) :
    (pieces.foldl (FormatPiece.apply toText argv) f).result =
      f.result ++ pieces.flatMap (FormatPiece.text toText argv) := by
  induction pieces generalizing f with
  | nil => simp
  | cons piece pieces ih => rw [List.foldl_cons, ih, apply_result, List.flatMap_cons, List.append_assoc]

/-! ### The count of the numbers -/

lemma selectorNumber_bounds {c : UInt8} {number : ℕ} (h : selectorNumber c = some number) :
    1 ≤ number ∧ number ≤ 9 := by
  unfold selectorNumber at h
  split at h
  next hc =>
    cases h
    simp only [Bool.and_eq_true, decide_eq_true_eq, UInt8.le_iff_toNat_le, UInt8.reduceToNat] at hc
    omega
  next => cases h

lemma number_bounds {piece : FormatPiece} {number : ℕ} (h : piece.number = some number) :
    1 ≤ number ∧ number ≤ 9 := by
  cases piece with
  | char c => cases h
  | selector c => exact selectorNumber_bounds h

lemma selectorNumbers_bounds {format : Text} {number : ℕ} (h : number ∈ selectorNumbers format) :
    1 ≤ number ∧ number ≤ 9 := by
  rw [selectorNumbers, List.mem_toFinset] at h
  obtain ⟨piece, -, hpiece⟩ := List.mem_filterMap.mp h
  exact number_bounds hpiece

lemma testBit_setSelector (mask : ℕ) {number : ℕ} (hlow : 1 ≤ number) (hhigh : number ≤ 9) (j : ℕ) :
    (setSelector mask number).testBit j = true ↔ mask.testBit j = true ∨ j + 1 = number := by
  have hbits : ¬ maskBits ≤ number := by
    unfold maskBits
    omega
  rw [setSelector, if_neg hbits, Nat.testBit_or, Nat.one_shiftLeft, Nat.testBit_two_pow, Bool.or_eq_true,
    decide_eq_true_eq]
  have hpred : number - 1 = j ↔ j + 1 = number := by omega
  rw [hpred]

lemma testBit_foldl_setSelector (numbers : List ℕ) (h : ∀ number ∈ numbers, 1 ≤ number ∧ number ≤ 9) (mask j : ℕ) :
    (numbers.foldl setSelector mask).testBit j = true ↔ mask.testBit j = true ∨ j + 1 ∈ numbers := by
  induction numbers generalizing mask with
  | nil => simp
  | cons number numbers ih =>
    obtain ⟨hlow, hhigh⟩ := h number List.mem_cons_self
    rw [List.foldl_cons, ih (fun n hn => h n (List.mem_cons_of_mem _ hn)), testBit_setSelector mask hlow hhigh,
      List.mem_cons, or_assoc]

/-- The loop counts the bits that are set. -/
lemma countSelectors_eq (bits mask : ℕ) :
    countSelectors bits mask = Nat.count (fun j => mask.testBit j = true) bits := by
  induction bits generalizing mask with
  | zero => rfl
  | succ bits ih =>
    rw [countSelectors, Nat.count_succ']
    by_cases hmask : mask = 0
    · simp [hmask, Nat.count_false]
    · have hhead : (if mask.testBit 0 = true then 1 else 0) = mask % 2 := by
        rw [Nat.testBit_zero]
        by_cases hodd : mask % 2 = 1
        · simp [hodd]
        · have heven : mask % 2 = 0 := by omega
          simp [heven]
      rw [if_neg hmask, ih, hhead, Nat.add_comm]
      simp only [Nat.testBit_succ]

/-- The bits of the mask stand for the numbers one to one. -/
lemma countSelectors_selectorMask (format : Text) :
    countSelectors maskBits (selectorMask 0 (formatPieces format)) = (selectorNumbers format).card := by
  have hbounds : ∀ number ∈ (formatPieces format).filterMap FormatPiece.number, 1 ≤ number ∧ number ≤ 9 :=
    fun number h => selectorNumbers_bounds (List.mem_toFinset.mpr h)
  have hbit : ∀ j, (selectorMask 0 (formatPieces format)).testBit j = true ↔ j + 1 ∈ selectorNumbers format := by
    intro j
    rw [selectorMask, testBit_foldl_setSelector _ hbounds, Nat.zero_testBit, selectorNumbers, List.mem_toFinset]
    simp
  rw [countSelectors_eq]
  simp only [hbit]
  rw [Nat.count_eq_card_filter_range]
  have himage : ((Finset.range maskBits).filter fun j => j + 1 ∈ selectorNumbers format).image (· + 1) =
      selectorNumbers format := by
    ext number
    constructor
    · intro h
      obtain ⟨j, hj, rfl⟩ := Finset.mem_image.mp h
      exact (Finset.mem_filter.mp hj).2
    · intro h
      obtain ⟨hlow, hhigh⟩ := selectorNumbers_bounds h
      have hback : number - 1 + 1 = number := by omega
      have hrange : number - 1 < maskBits := by
        unfold maskBits
        omega
      refine Finset.mem_image.mpr ⟨number - 1, Finset.mem_filter.mpr ⟨Finset.mem_range.mpr hrange, ?_⟩, hback⟩
      rw [hback]
      exact h
  have hinj : Function.Injective fun j : ℕ => j + 1 := by
    intro i j h
    simpa using h
  rw [← Finset.card_image_of_injective _ hinj, himage]

/-- The check takes a format by the number of its numbers. -/
theorem finalizeFormat_eq_none_iff (format : Text) (parameters : ℕ) :
    finalizeFormat (some (.string format)) parameters = none ↔
      hasBadSelector (cut format) = false ∧ (selectorNumbers (cut format)).card = parameters := by
  simp only [finalizeFormat, cString]
  rw [formatScan_eq (cut format) (zero_not_mem_cut format)]
  cases hasBadSelector (cut format) with
  | true => simp
  | false => simp [countSelectors_selectorMask]

/-! ### What happens at run time -/

lemma apply_warnings (f : Formatted) (piece : FormatPiece) :
    (piece.apply toText argv f).warnings = [] ↔
      f.warnings = [] ∧ piece.isBad = false ∧ ∀ number, piece.number = some number → number ≤ argv.length := by
  cases piece with
  | char c => simp [FormatPiece.apply]
  | selector c =>
    rw [FormatPiece.apply, formatSelector, isBad_selector, number_selector]
    by_cases hc : c = percent
    · have hnumber : selectorNumber percent = none := rfl
      simp [hc, hnumber]
    · rw [if_neg hc]
      cases hnumber : selectorNumber c with
      | none => simp [hc]
      | some number =>
        obtain ⟨hlow, -⟩ := selectorNumber_bounds hnumber
        simp only [formatArgument]
        cases hget : argv[number - 1]? with
        | none =>
          have hlen := List.getElem?_eq_none_iff.mp hget
          simp
          omega
        | some v =>
          obtain ⟨hlen, -⟩ := List.getElem?_eq_some_iff.mp hget
          simp
          omega

lemma foldl_apply_warnings (pieces : List FormatPiece) (f : Formatted) :
    (pieces.foldl (FormatPiece.apply toText argv) f).warnings = [] ↔
      f.warnings = [] ∧ ∀ piece ∈ pieces, piece.isBad = false ∧
        ∀ number, piece.number = some number → number ≤ argv.length := by
  induction pieces generalizing f with
  | nil => simp
  | cons piece pieces ih => rw [List.foldl_cons, ih, apply_warnings, List.forall_mem_cons, and_assoc]

lemma mem_apply_used (f : Formatted) (piece : FormatPiece) (i : ℕ) :
    i ∈ (piece.apply toText argv f).used ↔ i ∈ f.used ∨ i < argv.length ∧ piece.number = some (i + 1) := by
  cases piece with
  | char c => simp [FormatPiece.apply]
  | selector c =>
    rw [FormatPiece.apply, formatSelector, number_selector]
    by_cases hc : c = percent
    · have hnumber : selectorNumber c = none := by rw [hc]; rfl
      rw [if_pos hc, hnumber]
      simp
    · rw [if_neg hc]
      cases hnumber : selectorNumber c with
      | none => simp
      | some number =>
        obtain ⟨hlow, -⟩ := selectorNumber_bounds hnumber
        simp only [formatArgument]
        cases hget : argv[number - 1]? with
        | none =>
          have hlen := List.getElem?_eq_none_iff.mp hget
          simp only [Option.some.injEq]
          constructor
          · exact Or.inl
          · rintro (h | ⟨hi, heq⟩)
            · exact h
            · omega
        | some v =>
          obtain ⟨hlen, -⟩ := List.getElem?_eq_some_iff.mp hget
          simp only [List.mem_append, List.mem_singleton, Option.some.injEq]
          have hsame : i = number - 1 ↔ i < argv.length ∧ number = i + 1 := by omega
          rw [hsame]

lemma mem_foldl_apply_used (pieces : List FormatPiece) (f : Formatted) (i : ℕ) :
    i ∈ (pieces.foldl (FormatPiece.apply toText argv) f).used ↔
      i ∈ f.used ∨ i < argv.length ∧ i + 1 ∈ pieces.filterMap FormatPiece.number := by
  induction pieces generalizing f with
  | nil => simp
  | cons piece pieces ih =>
    rw [List.foldl_cons, ih, mem_apply_used, List.mem_filterMap, List.mem_filterMap, or_assoc, ← and_or_left]
    simp only [List.exists_mem_cons_iff]

end

/-- A format without a bad selector is safe where its numbers are those of the parameters. -/
theorem formatsSoundly_iff (toText : YCPValue → Text) {format : Text} (h : hasBadSelector (cut format) = false)
    (parameters : ℕ) :
    FormatsSoundly toText format parameters ↔ selectorNumbers (cut format) = Finset.Icc 1 parameters := by
  obtain ⟨hdangling, hpieces⟩ := Bool.or_eq_false_iff.mp h
  have hgood : ∀ piece ∈ formatPieces (cut format), piece.isBad = false := by simpa using hpieces
  have hrun : ∀ argv : List YCPValue, formatLoop toText argv ⟨[], [], []⟩ (cString format) =
      some ((formatPieces (cut format)).foldl (FormatPiece.apply toText argv) ⟨[], [], []⟩) := by
    intro argv
    rw [cString, formatLoop_eq (cut format) (zero_not_mem_cut format), hdangling]
    rfl
  constructor
  · intro hsound
    obtain ⟨f, hf, hwarnings, hused⟩ := hsound (List.replicate parameters .null) List.length_replicate
    rw [hrun, Option.some.injEq] at hf
    subst hf
    rw [foldl_apply_warnings] at hwarnings
    ext number
    rw [Finset.mem_Icc]
    constructor
    · intro hnumber
      obtain ⟨piece, hmem, hpiece⟩ := List.mem_filterMap.mp (List.mem_toFinset.mp hnumber)
      have hle := (hwarnings.2 piece hmem).2 number hpiece
      rw [List.length_replicate] at hle
      exact ⟨(selectorNumbers_bounds hnumber).1, hle⟩
    · rintro ⟨hlow, hhigh⟩
      have hmem := hused (number - 1) (by omega)
      rw [mem_foldl_apply_used] at hmem
      have hback : number - 1 + 1 = number := by omega
      rcases hmem with hnone | ⟨-, hnumber⟩
      · cases hnone
      · rw [hback] at hnumber
        exact List.mem_toFinset.mpr hnumber
  · intro hnumbers argv hargv
    refine ⟨_, hrun argv, ?_, ?_⟩
    · rw [foldl_apply_warnings]
      refine ⟨rfl, fun piece hmem => ⟨hgood piece hmem, fun number hpiece => ?_⟩⟩
      have hnumber : number ∈ selectorNumbers (cut format) :=
        List.mem_toFinset.mpr (List.mem_filterMap.mpr ⟨piece, hmem, hpiece⟩)
      rw [hnumbers, Finset.mem_Icc] at hnumber
      rw [hargv]
      exact hnumber.2
    · intro i hi
      have hnumber : i + 1 ∈ selectorNumbers (cut format) := by
        rw [hnumbers, Finset.mem_Icc]
        omega
      rw [mem_foldl_apply_used]
      exact Or.inr ⟨by omega, List.mem_toFinset.mp hnumber⟩

/-- A format that the check takes is safe unless its numbers leave gaps. -/
theorem finalizeFormat_sound_iff (toText : YCPValue → Text) (format : Text) (parameters : ℕ) :
    (finalizeFormat (some (.string format)) parameters = none → FormatsSoundly toText format parameters) ↔
      ¬ NumbersMissed (cut format) parameters := by
  rw [finalizeFormat_eq_none_iff]
  constructor
  · rintro hsound ⟨hbad, hcard, hmissed⟩
    exact hmissed ((formatsSoundly_iff toText hbad parameters).mp (hsound ⟨hbad, hcard⟩))
  · rintro hnot ⟨hbad, hcard⟩
    rw [formatsSoundly_iff toText hbad]
    by_contra hmissed
    exact hnot ⟨hbad, hcard, hmissed⟩

/-- `"%2"` with one argument. -/
theorem finalizeFormat_gap :
    ¬ (finalizeFormat (some (.string [percent, 50])) 1 = none → FormatsSoundly (fun _ => []) [percent, 50] 1) := by
  intro h
  have haccepted : finalizeFormat (some (.string [percent, 50])) 1 = none := rfl
  obtain ⟨f, hf, hwarnings, -⟩ := h haccepted [.null] rfl
  cases hf
  cases hwarnings

end YastCore
