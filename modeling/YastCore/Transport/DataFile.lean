import YastCore.Transport.Leaves
import YastCore.Transport.Values

/-!
# YCP data files

`Write (.target.ycp, file, v)` and `Read (.target.ycp, file)`: a file has each element of a list and each
entry of a map in a line of its own, and a line that begins with `#` is a comment for the scanner.
-/

namespace YastCore.Transport

open Interp Lines

/-! ### Writing -/

/-- `indent_output` -/
def indentOutput : Nat → Text
  | 0 => []
  | level + 1 => 32 :: 32 :: indentOutput level

/-- The comma between two elements; there is none behind the last one. -/
def comma (isLast : Bool) : Text := if isLast then [] else [44]

mutual

/-- `dump_value` -/
def dumpValue (isprint : UInt8 → Bool) (level : Nat) : YCPValue → Text
  | .null => []
  | .list elements =>
    91 :: (dumpElements isprint (level + 1) elements ++ newline :: (indentOutput level ++ [93]))
  | .map entries =>
    36 :: 91 :: (dumpEntries isprint (level + 1) entries ++ newline :: (indentOutput level ++ [93]))
  | v => cut (toText isprint v)

/-- The loop over the elements of a list, from this one on. -/
def dumpElements (isprint : UInt8 → Bool) (level : Nat) : List YCPValue → Text
  | [] => []
  | v :: elements =>
    newline :: (indentOutput level ++ (dumpValue isprint level v ++
      (comma elements.isEmpty ++ dumpElements isprint level elements)))

/-- The loop over the entries of a map, from this one on. -/
def dumpEntries (isprint : UInt8 → Bool) (level : Nat) : List (YCPValue × YCPValue) → Text
  | [] => []
  | e :: entries =>
    newline :: (indentOutput level ++ (dumpEntry isprint level e ++
      (comma entries.isEmpty ++ dumpEntries isprint level entries)))

def dumpEntry (isprint : UInt8 → Bool) (level : Nat) : YCPValue × YCPValue → Text
  | (key, value) => dumpValue isprint level key ++ (ascii " : " ++ dumpValue isprint level value)

end

/-- What `Write (.target.ycp, file, v)` leaves in the file when it succeeds. -/
def writeYcp (isprint : UInt8 → Bool) (v : YCPValue) : Text := dumpValue isprint 0 v ++ [newline]

/-! ### Reading -/

/-- `Read (.target.ycp, file)`; none where the file cannot be parsed. -/
def readYcp (fuel : Nat) (text : Text) : Option YCPValue := do
  let p ← parse fuel (skipComments true text)
  let contents ← p.heap.evaluate true p.c
  some (if contents.isNull then .void else contents)

/-- The file is read as the value. -/
def ReadBack (text : Text) (v : YCPValue) : Prop := ∃ n, ∀ fuel, n ≤ fuel → readYcp fuel text = some v

/-- Values of nil, booleans, integers, strings without NUL, byteblocks, paths and symbols that the scanner
accepts, lists, maps and terms. -/
inductive Storable (isprint : UInt8 → Bool) : YCPValue → Prop where
  | void : Storable isprint .void
  | boolean (b : Bool) : Storable isprint (.boolean b)
  | integer (i : Int64) : Storable isprint (.integer i)
  | string {s : Text} (nulFree : 0 ∉ s) : Storable isprint (.string s)
  | byteblock (bytes : List UInt8) : Storable isprint (.byteblock bytes)
  | path {p : List PathComponent} (accepted : (scanLeaf (pathToText isprint p)).isSome = true) :
      Storable isprint (.path p)
  | symbol {name : Text} (isName : isSymbolName name = true) : Storable isprint (.symbol name)
  | list {l : List YCPValue} (elements : ∀ v ∈ l, Storable isprint v) : Storable isprint (.list l)
  | term {name : Text} {l : List YCPValue} (isName : isSymbolName name = true)
      (args : ∀ v ∈ l, Storable isprint v) : Storable isprint (.term name l)
  | map {m : List (YCPValue × YCPValue)} (ordered : YCPValue.MapOrdered m)
      (keys : ∀ e ∈ m, Storable isprint e.1) (values : ∀ e ∈ m, Storable isprint e.2) :
      Storable isprint (.map m)

/-! ### What comes back -/

mutual

/-- What is read from the text of a value in one line. -/
def inlineBack : YCPValue → YCPValue
  | .integer i => .integer (readInteger i)
  | .path p => .path (p.map PathComponent.carried)
  | .list l => .list (inlineBackList l)
  | .term name l => .term name (inlineBackList l)
  | .map m => .map (YCPValue.rebuild (inlineBackMap m))
  | v => v

def inlineBackList : List YCPValue → List YCPValue
  | [] => []
  | v :: l => inlineBack v :: inlineBackList l

def inlineBackMap : List (YCPValue × YCPValue) → List (YCPValue × YCPValue)
  | [] => []
  | (key, value) :: m => (inlineBack key, inlineBack value) :: inlineBackMap m

end

def isByteblock : YCPValue → Bool
  | .byteblock _ => true
  | _ => false

/-- A negative integer; its text is no constant but an expression. -/
def isNegative : YCPValue → Bool
  | .integer i => i.toInt < 0
  | _ => false

mutual

/-- What is read from the lines of a value. The lines that are elements of a list and begin with a
byteblock are comments. -/
def layoutBack : YCPValue → YCPValue
  | .list l => .list (layoutBackList l)
  | .map m => .map (YCPValue.rebuild (layoutBackMap m))
  | v => inlineBack v

def layoutBackList : List YCPValue → List YCPValue
  | [] => []
  | v :: l => if isByteblock v then layoutBackList l else layoutBack v :: layoutBackList l

def layoutBackMap : List (YCPValue × YCPValue) → List (YCPValue × YCPValue)
  | [] => []
  | (key, value) :: m => (inlineBack key, layoutBack value) :: layoutBackMap m

end

mutual

/-- No integer is the smallest one, no component of a path contains a NUL. -/
def keptInline : YCPValue → Bool
  | .integer i => i != Int64.minValue
  | .path p => p.all fun c => !c.component.contains 0
  | .list l => keptInlineList l
  | .term _ l => keptInlineList l
  | .map m => keptInlineMap m
  | _ => true

def keptInlineList : List YCPValue → Bool
  | [] => true
  | v :: l => keptInline v && keptInlineList l

def keptInlineMap : List (YCPValue × YCPValue) → Bool
  | [] => true
  | (key, value) :: m => keptInline key && keptInline value && keptInlineMap m

end

mutual

/-- Also no element of a list that is written in several lines is a byteblock. -/
def keptLines : YCPValue → Bool
  | .list l => keptLinesList l
  | .map m => keptLinesMap m
  | v => keptInline v

def keptLinesList : List YCPValue → Bool
  | [] => true
  | v :: l => !isByteblock v && keptLines v && keptLinesList l

def keptLinesMap : List (YCPValue × YCPValue) → Bool
  | [] => true
  | (key, value) :: m => keptInline key && keptLines value && keptLinesMap m

end

/-- The values that a data file keeps. -/
structure Kept (v : YCPValue) : Prop where
  notByteblock : isByteblock v = false
  notNegative : isNegative v = false
  lines : keptLines v = true

lemma inlineBackList_eq_map (l : List YCPValue) : inlineBackList l = l.map inlineBack := by
  induction l with
  | nil => rfl
  | cons v l ih => rw [inlineBackList, ih, List.map_cons]

lemma inlineBackMap_eq_map (m : List (YCPValue × YCPValue)) :
    inlineBackMap m = m.map fun e => (inlineBack e.1, inlineBack e.2) := by
  induction m with
  | nil => rfl
  | cons e m ih => rw [inlineBackMap, ih, List.map_cons]

lemma layoutBackMap_eq_map (m : List (YCPValue × YCPValue)) :
    layoutBackMap m = m.map fun e => (inlineBack e.1, layoutBack e.2) := by
  induction m with
  | nil => rfl
  | cons e m ih => rw [layoutBackMap, ih, List.map_cons]

lemma isMapKey_inlineBack (v : YCPValue) : (inlineBack v).isMapKey = v.isMapKey := by
  cases v <;> rfl

/-! ### One line -/

variable {isprint : UInt8 → Bool}

lemma oneLine_commaTail {l : List YCPValue} (h : ∀ v ∈ l, OneLine (toText isprint v)) :
    OneLine (commaTail isprint l) := by
  induction l with
  | nil => exact oneLine_nil
  | cons v l ih =>
    rw [List.forall_mem_cons] at h
    have hseparator : OneLine (ascii ", ") := oneLine_nil.cons (by decide) |>.cons (by decide)
    exact hseparator.append (h.1.append (ih h.2))

lemma oneLine_commaList {l : List YCPValue} (h : ∀ v ∈ l, OneLine (toText isprint v)) :
    OneLine (commaList isprint l) := by
  cases l with
  | nil => exact oneLine_nil
  | cons v l =>
    rw [List.forall_mem_cons] at h
    exact h.1.append (oneLine_commaTail h.2)

lemma oneLine_entryText {e : YCPValue × YCPValue} (hkey : OneLine (toText isprint e.1))
    (hvalue : OneLine (toText isprint e.2)) : OneLine (entryText isprint e) := by
  rw [entryText]
  exact hkey.append (hvalue.cons (by decide))

lemma oneLine_entryTail {m : List (YCPValue × YCPValue)} (h : ∀ e ∈ m, OneLine (entryText isprint e)) :
    OneLine (entryTail isprint m) := by
  induction m with
  | nil => exact oneLine_nil
  | cons e m ih =>
    rw [List.forall_mem_cons] at h
    have hseparator : OneLine (ascii ", ") := oneLine_nil.cons (by decide) |>.cons (by decide)
    exact hseparator.append (h.1.append (ih h.2))

lemma oneLine_entryList {m : List (YCPValue × YCPValue)} (h : ∀ e ∈ m, OneLine (entryText isprint e)) :
    OneLine (entryList isprint m) := by
  cases m with
  | nil => exact oneLine_nil
  | cons e m =>
    rw [List.forall_mem_cons] at h
    exact h.1.append (oneLine_entryTail h.2)

/-- The text of a value is a C string without a line feed. -/
lemma Storable.oneLine {v : YCPValue} (h : Storable isprint v) : OneLine (toText isprint v) := by
  have hclose : OneLine [93] := oneLine_nil.cons (by decide)
  induction h with
  | void => exact oneLine_nil.cons (by decide) |>.cons (by decide) |>.cons (by decide)
  | boolean b =>
    cases b with
    | true =>
      exact oneLine_nil.cons (by decide) |>.cons (by decide) |>.cons (by decide) |>.cons (by decide)
    | false =>
      exact oneLine_nil.cons (by decide) |>.cons (by decide) |>.cons (by decide) |>.cons (by decide)
        |>.cons (by decide)
  | integer i => exact oneLine_integerToText i
  | string => exact oneLine_stringToText _
  | byteblock bytes =>
    exact (((oneLine_bytesToText bytes 0).append hclose).cons (by decide)).cons (by decide)
  | path => exact oneLine_pathToText isprint _
  | symbol hname => exact (oneLine_symbolName hname).cons (by decide)
  | list _ ih => exact ((oneLine_commaList ih).append hclose).cons (by decide)
  | term hname _ ih =>
    have hargs : OneLine (commaList isprint _ ++ [41]) :=
      (oneLine_commaList ih).append (oneLine_nil.cons (by decide))
    have hopen := (hargs.cons (c := 40) (by decide)).cons (c := 32) (by decide)
    exact ((oneLine_symbolName hname).append hopen).cons (by decide)
  | map _ _ _ ihkeys ihvalues =>
    have hentries := oneLine_entryList fun e he => oneLine_entryText (ihkeys e he) (ihvalues e he)
    exact ((hentries.append hclose).cons (by decide)).cons (by decide)

/-- A value in one line is read back but for its smallest integers and its paths with a NUL. -/
lemma Storable.readsAs {v : YCPValue} (h : Storable isprint v) : ReadsAs isprint v (inlineBack v) := by
  induction h with
  | void => exact readsAs_leaf rfl rfl rfl
  | boolean b => cases b <;> exact readsAs_leaf rfl rfl rfl
  | integer i => exact readsAs_leaf (scanLeaf_integer i) rfl rfl
  | string hnul => exact readsAs_leaf (scanLeaf_string hnul) rfl rfl
  | byteblock bytes => exact readsAs_leaf (scanLeaf_byteblock bytes) rfl rfl
  | path haccepted => exact readsAs_leaf (scanLeaf_path haccepted) rfl rfl
  | symbol hname => exact readsAs_symbol hname
  | list _ ih =>
    rw [inlineBack, inlineBackList_eq_map]
    exact readsAs_list ih
  | term hname _ ih =>
    rw [inlineBack, inlineBackList_eq_map]
    exact readsAs_term hname ih
  | map hordered _ _ ihkeys ihvalues =>
    rw [inlineBack, inlineBackMap_eq_map]
    exact readsAs_entries fun e he => ⟨hordered.keys e he,
      (isMapKey_inlineBack e.1).trans (hordered.keys e he), ihkeys e he, ihvalues e he⟩

/-! ### The start of a line -/

lemma isCommentLine_cons {c : UInt8} (t : Text) (hc : isspace c = false) (hhash : c ≠ 35) :
    isCommentLine (c :: t) = false := by
  have hblank : ¬ (c == 9 || c == 32) = true := by
    rw [Bool.or_eq_true, beq_iff_eq, beq_iff_eq]
    rintro (rfl | rfl) <;> cases hc
  have hdrop : (c :: t).dropWhile (fun c => c == 9 || c == 32) = c :: t := List.dropWhile_cons_of_neg hblank
  rw [isCommentLine, hdrop, List.head?_cons]
  simp [hhash]

lemma isCommentLine_indent (n : Nat) (t : Text) : isCommentLine (indentOutput n ++ t) = isCommentLine t := by
  have hblank (t : Text) : isCommentLine (32 :: t) = isCommentLine t := by
    rw [isCommentLine, List.dropWhile_cons_of_pos rfl, List.contains_cons]
    rfl
  induction n with
  | zero => rfl
  | succ n ih => rw [indentOutput, List.cons_append, List.cons_append, hblank, hblank, ih]

lemma skipComments_of_not_comment {t : Text} (h : isCommentLine t = false) :
    skipComments true t = skipComments false t := by
  cases t with
  | nil => rw [skipComments_nil, skipComments_nil]
  | cons c t =>
    conv_lhs => rw [skipComments, h, Bool.and_false]
    conv_rhs => rw [skipComments, Bool.false_and]

lemma skipComments_newline (t : Text) :
    skipComments false (newline :: t) = newline :: skipComments true t :=
  skipComments_space t rfl rfl

lemma skipComments_indent (n : Nat) (t : Text) :
    skipComments false (indentOutput n ++ t) = indentOutput n ++ skipComments false t := by
  have hblank (t : Text) : skipComments false (32 :: t) = 32 :: skipComments false t :=
    skipComments_space t rfl rfl
  induction n with
  | zero => rfl
  | succ n ih => rw [indentOutput, List.cons_append, List.cons_append, hblank, hblank, ih]; rfl

lemma scan_newline (t : Text) : scan (newline :: t) = scan t := rfl

lemma scan_indent (n : Nat) (t : Text) : scan (indentOutput n ++ t) = scan t := by
  induction n with
  | zero => rfl
  | succ n ih => exact ih

/-- A line that is no comment. -/
lemma skipComments_line (n : Nat) {t : Text} (h : isCommentLine t = false) :
    skipComments false (newline :: (indentOutput n ++ t)) =
      newline :: (indentOutput n ++ skipComments false t) := by
  rw [← isCommentLine_indent n] at h
  rw [skipComments_newline, skipComments_of_not_comment h, skipComments_indent]

/-- A line that begins with a byteblock is a comment up to its end. -/
lemma skipComments_hash (n : Nat) {t : Text} (ht : OneLine t) (rest : Text) :
    skipComments false (newline :: (indentOutput n ++ 35 :: (t ++ newline :: rest))) =
      newline :: skipComments false (newline :: rest) := by
  have hindent : ∀ c ∈ indentOutput n, (c != newline) = true := by
    intro c hc
    induction n with
    | zero => cases hc
    | succ n ih =>
      rw [indentOutput, List.mem_cons, List.mem_cons] at hc
      rcases hc with rfl | rfl | hc
      · rfl
      · rfl
      · exact ih hc
  have hline : ∀ c ∈ indentOutput n ++ 35 :: t, (c != newline) = true := by
    intro c hc
    rw [List.mem_append, List.mem_cons] at hc
    rcases hc with hc | rfl | hc
    · exact hindent c hc
    · rfl
    · exact bne_iff_ne.mpr (ht c hc).2
  have hcomment : isCommentLine (indentOutput n ++ 35 :: (t ++ newline :: rest)) = true := by
    rw [isCommentLine_indent, isCommentLine, List.dropWhile_cons_of_neg (by decide)]
    simp
  have hdrop : (indentOutput n ++ 35 :: (t ++ newline :: rest)).dropWhile (· != newline) =
      newline :: rest := by
    rw [← List.cons_append, ← List.append_assoc, List.dropWhile_append_of_pos hline,
      List.dropWhile_cons_of_neg (by simp)]
  rw [skipComments_newline, skipComments_comment hcomment, hdrop]

/-! ### The lines of a value -/

lemma Storable.cut_toText {v : YCPValue} (h : Storable isprint v) :
    cut (toText isprint v) = toText isprint v :=
  cut_eq_self.mpr fun hzero => (h.oneLine 0 hzero).1 rfl

/-- The first character of a value tells byteblocks and negative integers from the other values. -/
structure Head (v : YCPValue) (c : UInt8) : Prop where
  isspace : Lines.isspace c = false
  byteblock : c = 35 → isByteblock v = true
  negative : c = 45 → isNegative v = true

lemma head_of_ne {v : YCPValue} {c : UInt8} (hspace : Lines.isspace c = false) (hhash : c ≠ 35)
    (hminus : c ≠ 45) : Head v c :=
  ⟨hspace, fun heq => absurd heq hhash, fun heq => absurd heq hminus⟩

lemma Storable.head_dumpValue {v : YCPValue} (h : Storable isprint v) (level : Nat) :
    ∃ c t, dumpValue isprint level v = c :: t ∧ Head v c := by
  have hcut := h.cut_toText
  cases h with
  | void => exact ⟨_, _, rfl, head_of_ne rfl (by decide) (by decide)⟩
  | boolean b => cases b <;> exact ⟨_, _, rfl, head_of_ne rfl (by decide) (by decide)⟩
  | integer i =>
    have htext : dumpValue isprint level (.integer i) = integerToText i := hcut
    by_cases hneg : i.toInt < 0
    · refine ⟨45, decimal i.toInt.natAbs, ?_, rfl, fun h => absurd h (by decide), fun _ => decide_eq_true hneg⟩
      rw [htext, integerToText, if_pos hneg]
    · obtain ⟨c, t, ht⟩ := List.exists_cons_of_ne_nil (decimal_ne_nil i.toInt.natAbs)
      have hc : isDigit c = true := isDigit_decimal _ c (by rw [ht]; exact List.mem_cons_self)
      refine ⟨c, t, ?_, head_of_ne (isspace_of_isDigit hc) ?_ ?_⟩
      · rw [htext, integerToText, if_neg hneg, ht]
      · rintro rfl
        cases hc
      · rintro rfl
        cases hc
  | string => exact ⟨34, _, hcut, head_of_ne rfl (by decide) (by decide)⟩
  | byteblock bytes => exact ⟨35, _, hcut, rfl, fun _ => rfl, fun h => absurd h (by decide)⟩
  | @path p =>
    obtain ⟨t, ht⟩ := pathToText_cons isprint p
    exact ⟨46, t, Eq.trans hcut ht, head_of_ne rfl (by decide) (by decide)⟩
  | symbol => exact ⟨96, _, hcut, head_of_ne rfl (by decide) (by decide)⟩
  | list => exact ⟨91, _, by rw [dumpValue], head_of_ne rfl (by decide) (by decide)⟩
  | term => exact ⟨96, _, hcut, head_of_ne rfl (by decide) (by decide)⟩
  | map => exact ⟨36, _, by rw [dumpValue], head_of_ne rfl (by decide) (by decide)⟩

lemma Storable.not_comment {v : YCPValue} (h : Storable isprint v) (hbyteblock : isByteblock v = false)
    (level : Nat) (rest : Text) : isCommentLine (dumpValue isprint level v ++ rest) = false := by
  obtain ⟨c, t, htext, hhead⟩ := h.head_dumpValue level
  rw [htext, List.cons_append]
  refine isCommentLine_cons _ hhead.isspace fun hc => ?_
  rw [hhead.byteblock hc] at hbyteblock
  cases hbyteblock

lemma dumpValue_byteblock {v : YCPValue} (h : Storable isprint v) (hbyteblock : isByteblock v = true)
    (level : Nat) : ∃ t, dumpValue isprint level v = 35 :: t ∧ OneLine t := by
  have hcut := h.cut_toText
  have hline := h.oneLine
  cases v with
  | byteblock bytes =>
    refine ⟨91 :: (bytesToText 0 bytes ++ [93]), hcut, ?_⟩
    exact fun c hc => hline c (List.mem_cons_of_mem 35 hc)
  | _ => cases hbyteblock

/-- The lines of a value are read as a value, in the middle of a line. -/
def ReadsLines (isprint : UInt8 → Bool) (v : YCPValue) : Prop :=
  ∀ level rest, Ends v rest → Ends v (skipComments false rest) →
    Reads (skipComments false (dumpValue isprint level v ++ rest)) (layoutBack v) (skipComments false rest)

/-- A value that is written in one line. -/
lemma Storable.readsLine {v : YCPValue} (h : Storable isprint v)
    (hdump : ∀ level, dumpValue isprint level v = cut (toText isprint v))
    (hback : layoutBack v = inlineBack v) : ReadsLines isprint v := by
  intro level rest hends hends'
  have hline : newline ∉ toText isprint v := fun hmem => (h.oneLine newline hmem).2 rfl
  have hskip := (h.readsAs rest hends).tokens.skipComments rfl hline
  rw [hdump, h.cut_toText, hskip, hback]
  exact h.readsAs _ hends'

/-! ### Lists -/

/-- The closing bracket in a line of its own. -/
def closing (level : Nat) (rest : Text) : Text := newline :: (indentOutput level ++ 93 :: rest)

lemma skipComments_char {c : UInt8} {rest : Text} {token : Token} (hspace : isspace c = false)
    (hscan : scan (c :: rest) = some (token, rest)) :
    skipComments false (c :: rest) = c :: skipComments false rest := by
  have htoken := @skipComments_token c [] rest token false rfl hspace hscan
  exact htoken

lemma skipComments_closing (level : Nat) {rest : Text} (hrest : rest.head? ≠ some 58) :
    skipComments false (closing level rest) = closing level (skipComments false rest) := by
  rw [closing, skipComments_line level (isCommentLine_cons rest rfl (by decide)),
    skipComments_char rfl (scan_bracket hrest)]
  rfl

lemma scan_closing (level : Nat) {rest : Text} (hrest : rest.head? ≠ some 58) :
    scan (closing level rest) = some (.char 93, rest) := by
  rw [closing, scan_newline, scan_indent, scan_bracket hrest]

lemma ends_newline {v : YCPValue} {t : Text} (h : ∀ r, scan t ≠ some (.char 40, r)) :
    Ends v (newline :: t) :=
  ⟨newline, t, rfl, rfl, fun heq => absurd heq (by decide), h⟩

lemma skipComments_comma (t : Text) : skipComments false (44 :: t) = 44 :: skipComments false t :=
  skipComments_char rfl (scan_comma t)

lemma ends_comma {v : YCPValue} (t : Text) : Ends v (44 :: t) :=
  Follows.ends ⟨44, t, rfl, rfl, fun heq => by cases heq⟩

lemma ends_closing {v : YCPValue} (level : Nat) {rest : Text} (hrest : rest.head? ≠ some 58) :
    Ends v (closing level rest) := by
  refine ends_newline fun r heq => ?_
  rw [scan_indent, scan_bracket hrest] at heq
  cases heq

lemma oneLine_comma (isLast : Bool) : OneLine (comma isLast) := by
  cases isLast with
  | true => exact oneLine_nil
  | false => exact oneLine_nil.cons (by decide)

/-- A new line begins behind each element. -/
lemma exists_line (level : Nat) (l : List YCPValue) (j : Nat) (rest : Text) :
    ∃ t, dumpElements isprint level l ++ closing j rest = newline :: t := by
  cases l with
  | nil => exact ⟨_, by rw [dumpElements, closing, List.nil_append]⟩
  | cons v l => exact ⟨_, by rw [dumpElements, List.cons_append]⟩

/-- What stands behind an element: a comma and more lines, or the line that closes the list. -/
lemma ends_after {v : YCPValue} (isLast : Bool) {lines : Text} (level : Nat) {rest : Text}
    (hlast : isLast = true → lines = []) (hrest : rest.head? ≠ some 58)
    (hrest' : (skipComments false rest).head? ≠ some 58) :
    Ends v (comma isLast ++ (lines ++ closing level rest)) ∧
      Ends v (skipComments false (comma isLast ++ (lines ++ closing level rest))) := by
  cases isLast with
  | true =>
    rw [hlast rfl, comma, if_pos rfl, List.nil_append, List.nil_append, skipComments_closing level hrest]
    exact ⟨ends_closing level hrest, ends_closing level hrest'⟩
  | false =>
    rw [comma, if_neg Bool.false_ne_true, List.singleton_append, skipComments_comma]
    exact ⟨ends_comma _, ends_comma _⟩

lemma ListText.congr {text text' rest : Text} {l : List YCPValue} (h : ListText text' l rest)
    (hscan : scan text = scan text') : ListText text l rest := by
  cases l with
  | nil => exact hscan.trans h
  | cons v l =>
    obtain ⟨t, hv, hl⟩ := h
    exact ⟨t, hv.congr hscan, hl⟩

lemma listText_dumpElements {l : List YCPValue} (level j : Nat) {rest : Text}
    (hl : ∀ v ∈ l, Storable isprint v) (hlines : ∀ v ∈ l, ReadsLines isprint v)
    (hrest : rest.head? ≠ some 58) (hrest' : (skipComments false rest).head? ≠ some 58) :
    ListText (skipComments false (dumpElements isprint level l ++ closing j rest)) (layoutBackList l)
      (skipComments false rest) := by
  induction l with
  | nil =>
    show scan (skipComments false (closing j rest)) = _
    rw [skipComments_closing j hrest, scan_closing j hrest']
  | cons v l ih =>
    rw [List.forall_mem_cons] at hl hlines
    have hmore := ih hl.2 hlines.2
    have htext : dumpElements isprint level (v :: l) ++ closing j rest =
        newline :: (indentOutput level ++ (dumpValue isprint level v ++
          (comma l.isEmpty ++ (dumpElements isprint level l ++ closing j rest)))) := by
      rw [dumpElements]
      simp only [List.cons_append, List.append_assoc]
    have hlast : l.isEmpty = true → dumpElements isprint level l = [] := by
      intro hempty
      rw [List.isEmpty_iff.mp hempty, dumpElements]
    rw [htext, layoutBackList]
    cases hbyteblock : isByteblock v with
    | true =>
      obtain ⟨t, hdump, ht⟩ := dumpValue_byteblock hl.1 hbyteblock level
      obtain ⟨more, hnext⟩ := @exists_line isprint level l j rest
      have hline : OneLine (t ++ comma l.isEmpty) := ht.append (oneLine_comma _)
      have hskip := skipComments_hash level hline more
      rw [← hnext, List.append_assoc] at hskip
      rw [hdump, List.cons_append, hskip, if_pos rfl]
      exact hmore.congr (scan_newline _)
    | false =>
      obtain ⟨hends, hends'⟩ := ends_after (v := v) l.isEmpty j hlast hrest hrest'
      rw [skipComments_line level (hl.1.not_comment hbyteblock level _), if_neg Bool.false_ne_true]
      refine ⟨_, (hlines.1 level _ hends hends').congr ?_, ?_⟩
      · rw [scan_newline, scan_indent]
      · cases l with
        | nil =>
          refine .close ?_
          show scan (skipComments false (closing j rest)) = _
          rw [skipComments_closing j hrest, scan_closing j hrest']
        | cons w l =>
          rw [List.isEmpty_cons, comma, if_neg Bool.false_ne_true, List.singleton_append, skipComments_comma]
          exact ListRest.comma (scan_comma _) hmore

/-! ### Maps -/

lemma layoutBack_of_isMapKey {v : YCPValue} (h : v.isMapKey = true) : layoutBack v = inlineBack v := by
  cases v with
  | list => cases h
  | map => cases h
  | _ => rfl

lemma not_isByteblock_of_isMapKey {v : YCPValue} (h : v.isMapKey = true) : isByteblock v = false := by
  cases v with
  | byteblock => cases h
  | _ => rfl

/-- Between the key and the value of an entry. -/
lemma skipComments_colon (t : Text) :
    skipComments false (32 :: 58 :: 32 :: t) = 32 :: 58 :: 32 :: skipComments false t := by
  have hcolon : scan (58 :: 32 :: t) = some (.char 58, 32 :: t) := scan_colon (by simp)
  have hblank (t : Text) : skipComments false (32 :: t) = 32 :: skipComments false t :=
    skipComments_space t rfl rfl
  rw [hblank, skipComments_char rfl hcolon, hblank]

lemma ends_colon {v : YCPValue} (t : Text) : Ends v (32 :: 58 :: 32 :: t) := by
  refine ⟨32, _, rfl, rfl, fun heq => absurd heq (by decide), fun r heq => ?_⟩
  have hcolon : scan (58 :: 32 :: t) = some (.char 58, 32 :: t) := scan_colon (by simp)
  rw [scan_blank, hcolon] at heq
  cases heq

lemma readsEntry_dumpEntry {e : YCPValue × YCPValue} (hkey : e.1.isMapKey = true)
    (hlines : ReadsLines isprint e.1 ∧ ReadsLines isprint e.2) (level : Nat) {rest : Text}
    (hends : Ends e.2 rest) (hends' : Ends e.2 (skipComments false rest)) :
    ReadsEntry (skipComments false (dumpEntry isprint level e ++ rest)) (inlineBack e.1, layoutBack e.2)
      (skipComments false rest) where
  isMapKey := (isMapKey_inlineBack e.1).trans hkey
  parts := by
    have htext : dumpEntry isprint level e ++ rest = dumpValue isprint level e.1 ++
        32 :: 58 :: 32 :: (dumpValue isprint level e.2 ++ rest) := by
      rw [dumpEntry]
      simp [ascii]
    have hfirst := hlines.1 level (32 :: 58 :: 32 :: (dumpValue isprint level e.2 ++ rest)) (ends_colon _)
    have hvalue := hlines.2 level rest hends hends'
    rw [skipComments_colon, layoutBack_of_isMapKey hkey] at hfirst
    rw [htext]
    exact ⟨_, _, hfirst (ends_colon _), (scan_blank _).trans (scan_colon (by simp)),
      hvalue.congr (scan_blank _)⟩

lemma mapText_dumpEntries {m : List (YCPValue × YCPValue)} (level j : Nat) {rest : Text}
    (hkeys : ∀ e ∈ m, e.1.isMapKey = true) (hm : ∀ e ∈ m, Storable isprint e.1)
    (hlines : ∀ e ∈ m, ReadsLines isprint e.1 ∧ ReadsLines isprint e.2)
    (hrest : rest.head? ≠ some 58) (hrest' : (skipComments false rest).head? ≠ some 58) :
    MapText (skipComments false (dumpEntries isprint level m ++ closing j rest)) (layoutBackMap m)
      (skipComments false rest) := by
  induction m with
  | nil =>
    show scan (skipComments false (closing j rest)) = _
    rw [skipComments_closing j hrest, scan_closing j hrest']
  | cons e m ih =>
    rw [List.forall_mem_cons] at hkeys hm hlines
    have hmore := ih hkeys.2 hm.2 hlines.2
    have htext : dumpEntries isprint level (e :: m) ++ closing j rest =
        newline :: (indentOutput level ++ (dumpEntry isprint level e ++
          (comma m.isEmpty ++ (dumpEntries isprint level m ++ closing j rest)))) := by
      rw [dumpEntries]
      simp only [List.cons_append, List.append_assoc]
    have hlast : m.isEmpty = true → dumpEntries isprint level m = [] := by
      intro hempty
      rw [List.isEmpty_iff.mp hempty, dumpEntries]
    have hcomment (t : Text) : isCommentLine (dumpEntry isprint level e ++ t) = false := by
      rw [dumpEntry, List.append_assoc]
      exact hm.1.not_comment (not_isByteblock_of_isMapKey hkeys.1) level _
    obtain ⟨hends, hends'⟩ := ends_after (v := e.2) m.isEmpty j hlast hrest hrest'
    rw [htext, layoutBackMap, skipComments_line level (hcomment _)]
    refine ⟨_, (readsEntry_dumpEntry hkeys.1 hlines.1 level hends hends').congr ?_, ?_⟩
    · rw [scan_newline, scan_indent]
    · cases m with
      | nil =>
        refine .close ?_
        show scan (skipComments false (closing j rest)) = _
        rw [skipComments_closing j hrest, scan_closing j hrest']
      | cons e' m =>
        rw [List.isEmpty_cons, comma, if_neg Bool.false_ne_true, List.singleton_append, skipComments_comma]
        obtain ⟨t, he, hm⟩ := hmore
        exact .next (scan_comma _) he hm

/-! ### Data files -/

/-- The lines of a value are read as what is left of it without the comments. -/
lemma Storable.readsLines {v : YCPValue} (h : Storable isprint v) : ReadsLines isprint v := by
  have hvalue := h
  induction h with
  | @list l helements ih =>
    intro level rest hends hends'
    have htext : dumpValue isprint level (.list l) ++ rest =
        91 :: (dumpElements isprint (level + 1) l ++ closing level rest) := by
      rw [dumpValue, closing]
      simp
    rw [htext, skipComments_char rfl (scan_list _), layoutBack]
    exact reads_list (scan_list _) (listText_dumpElements (level + 1) level helements
      (fun v hv => ih v hv (helements v hv)) (hends.ne_colon rfl) (hends'.ne_colon rfl))
  | @map m hordered hkeys hvalues ihkeys ihvalues =>
    intro level rest hends hends'
    have htext : dumpValue isprint level (.map m) ++ rest =
        36 :: 91 :: (dumpEntries isprint (level + 1) m ++ closing level rest) := by
      rw [dumpValue, closing]
      simp
    have hopen (t : Text) : skipComments false (36 :: 91 :: t) = 36 :: 91 :: skipComments false t :=
      @skipComments_token 36 [91] t .mapExpr false rfl rfl rfl
    rw [htext, hopen, layoutBack]
    exact reads_map (scan_map _) (mapText_dumpEntries (level + 1) level hordered.keys hkeys
      (fun e he => ⟨ihkeys e he (hkeys e he), ihvalues e he (hvalues e he)⟩) (hends.ne_colon rfl)
      (hends'.ne_colon rfl))
  | _ => exact hvalue.readsLine (fun _ => rfl) rfl

lemma scan_minus {c : UInt8} {t rest : Text} (hspace : isspace c = false)
    (h : scan (c :: t) = some (.char 45, rest)) : c = 45 := by
  by_cases hchar : c = 40 ∨ c = 41 ∨ c = 91 ∨ c = 44 ∨ c = 45
  · rcases hchar with rfl | rfl | rfl | rfl | rfl <;> cases h
    rfl
  · rw [scan, hspace, if_neg Bool.false_ne_true, if_neg hchar] at h
    grind [constantToken, Option.map_eq_some_iff]

/-- The first character of a line is left alone. -/
lemma skipComments_head {c : UInt8} (t : Text) (hspace : isspace c = false) :
    ∃ t', skipComments false (c :: t) = c :: t' := by
  cases hscan : scan (c :: t) with
  | some q =>
    obtain ⟨token, rest⟩ := q
    obtain ⟨seg, rfl⟩ := scan_suffix hscan
    exact ⟨_, skipComments_token false rfl hspace hscan⟩
  | none =>
    refine ⟨t, ?_⟩
    rw [skipComments, hspace, Bool.false_and, if_neg Bool.false_ne_true, if_neg Bool.false_ne_true]
    split
    next heq =>
      rw [hscan] at heq
      cases heq
    next => rfl

lemma parse_eq_expression {text : Text} (h : ∀ rest, scan text ≠ some (.char 45, rest)) (fuel : Nat) :
    parse fuel text = expression (fuel + 1) [] text := by
  rw [parse, expression]
  cases hscan : scan text with
  | none => rfl
  | some q =>
    obtain ⟨token, rest⟩ := q
    dsimp only
    split
    next rest' heq => exact absurd (hscan.trans heq) (h rest')
    next heq =>
      cases heq
      rfl
    next heq => cases heq

lemma readBack_of_reads {text rest : Text} {v : YCPValue} (h : Reads (skipComments true text) v rest)
    (hminus : ∀ rest, scan (skipComments true text) ≠ some (.char 45, rest)) : ReadBack text v := by
  obtain ⟨n, p, hexpr, hresult⟩ := h.code []
  refine ⟨n, fun fuel hfuel => ?_⟩
  have hvalue : p.heap.evaluate true p.c = some v := hresult.denotes.evaluate
  rw [readYcp, parse_eq_expression hminus, hexpr (fuel + 1) (by omega), Option.bind_eq_bind, Option.bind_some,
    hvalue, Option.bind_eq_bind, Option.bind_some, h.notNull, if_neg Bool.false_ne_true]

lemma ReadBack.unique {text : Text} {v w : YCPValue} (hv : ReadBack text v) (hw : ReadBack text w) :
    v = w := by
  obtain ⟨n, hv⟩ := hv
  obtain ⟨m, hw⟩ := hw
  have heq := hv (max n m) (by omega)
  rw [hw (max n m) (by omega)] at heq
  exact (Option.some.inj heq).symm

/-- A value that is no byteblock and no negative integer is read, without the comments. -/
lemma Storable.readBack {v : YCPValue} (h : Storable isprint v) (hbyteblock : isByteblock v = false)
    (hnegative : isNegative v = false) : ReadBack (writeYcp isprint v) (layoutBack v) := by
  have hends : Ends v [newline] := ends_newline fun r heq => by cases heq
  have hend : skipComments false [newline] = [newline] := by
    rw [skipComments_newline, skipComments_nil]
  have hskip : skipComments true (writeYcp isprint v) = skipComments false (writeYcp isprint v) :=
    skipComments_of_not_comment (h.not_comment hbyteblock 0 _)
  have hlines := h.readsLines 0 [newline] hends (by rwa [hend])
  rw [hend, ← writeYcp, ← hskip] at hlines
  refine readBack_of_reads hlines fun rest hscan => ?_
  obtain ⟨c, t, htext, hhead⟩ := h.head_dumpValue 0
  obtain ⟨t', ht'⟩ := skipComments_head (t ++ [newline]) hhead.isspace
  rw [hskip, writeYcp, htext, List.cons_append, ht'] at hscan
  have hminus := scan_minus hhead.isspace hscan
  rw [hhead.negative hminus] at hnegative
  cases hnegative

/-- The line of a byteblock is a comment, so nothing is left to be parsed. -/
lemma not_readBack_byteblock {v : YCPValue} (h : Storable isprint v) (hbyteblock : isByteblock v = true)
    (w : YCPValue) : ¬ ReadBack (writeYcp isprint v) w := by
  rintro ⟨n, hn⟩
  obtain ⟨t, hdump, ht⟩ := dumpValue_byteblock h hbyteblock 0
  have hskip := skipComments_hash 0 ht []
  rw [skipComments_newline, skipComments_newline, skipComments_nil, List.cons.injEq] at hskip
  have hfile : skipComments true (writeYcp isprint v) = [newline] := by
    rw [writeYcp, hdump]
    exact hskip.2
  have hparse : parse n [newline] = none := rfl
  have hread := hn n (le_refl n)
  rw [readYcp, hfile, hparse] at hread
  cases hread

/-- The parser does not begin with a minus sign. -/
lemma not_readBack_negative {v : YCPValue} (h : Storable isprint v) (hnegative : isNegative v = true)
    (w : YCPValue) : ¬ ReadBack (writeYcp isprint v) w := by
  rintro ⟨n, hn⟩
  have hcut := h.cut_toText
  obtain ⟨t, hdump⟩ : ∃ t, dumpValue isprint 0 v = 45 :: t := by
    cases v with
    | integer i =>
      refine ⟨decimal i.toInt.natAbs, ?_⟩
      have htext : dumpValue isprint 0 (.integer i) = integerToText i := hcut
      rw [htext, integerToText, if_pos (of_decide_eq_true hnegative)]
    | _ => cases hnegative
  have hfile : skipComments true (writeYcp isprint v) = 45 :: skipComments false (t ++ [newline]) := by
    rw [writeYcp, hdump, List.cons_append, skipComments_of_not_comment (isCommentLine_cons _ rfl (by decide))]
    exact skipComments_char rfl rfl
  have hread := hn n (le_refl n)
  rw [readYcp, hfile] at hread
  cases hread

/-! ### What is kept -/

lemma keptInlineList_iff {l : List YCPValue} :
    keptInlineList l = true ↔ ∀ v ∈ l, keptInline v = true := by
  induction l with
  | nil => simp [keptInlineList]
  | cons v l ih => rw [keptInlineList, Bool.and_eq_true, ih, List.forall_mem_cons]

lemma keptInlineMap_iff {m : List (YCPValue × YCPValue)} :
    keptInlineMap m = true ↔ ∀ e ∈ m, keptInline e.1 = true ∧ keptInline e.2 = true := by
  induction m with
  | nil => simp [keptInlineMap]
  | cons e m ih => rw [keptInlineMap, Bool.and_eq_true, Bool.and_eq_true, ih, List.forall_mem_cons]

lemma keptLinesList_iff {l : List YCPValue} :
    keptLinesList l = true ↔ ∀ v ∈ l, isByteblock v = false ∧ keptLines v = true := by
  induction l with
  | nil => simp [keptLinesList]
  | cons v l ih =>
    rw [keptLinesList, Bool.and_eq_true, Bool.and_eq_true, Bool.not_eq_true', ih, List.forall_mem_cons]

lemma keptLinesMap_iff {m : List (YCPValue × YCPValue)} :
    keptLinesMap m = true ↔ ∀ e ∈ m, keptInline e.1 = true ∧ keptLines e.2 = true := by
  induction m with
  | nil => simp [keptLinesMap]
  | cons e m ih => rw [keptLinesMap, Bool.and_eq_true, Bool.and_eq_true, ih, List.forall_mem_cons]

/-- A map has no other keys and no other values than the entries that it is made of. -/
lemma forall_rebuild {P Q : YCPValue → Prop} {m : List (YCPValue × YCPValue)}
    (h : ∀ e ∈ m, P e.1 ∧ Q e.2) : ∀ e ∈ YCPValue.rebuild m, P e.1 ∧ Q e.2 := by
  have hfold : ∀ a : List (YCPValue × YCPValue), (∀ e ∈ a, P e.1 ∧ Q e.2) →
      ∀ e ∈ m.foldl (fun m e => YCPValue.mapInsert e.1 e.2 m) a, P e.1 ∧ Q e.2 := by
    induction m with
    | nil => exact fun a ha => ha
    | cons e m ih =>
      rw [List.forall_mem_cons] at h
      intro a ha
      refine ih h.2 _ fun e' he' => ?_
      rcases YCPValue.mem_mapInsert he' with rfl | ⟨e'', he'', hkey, hvalue⟩
      · exact h.1
      · have hold := ha e'' he''
        rw [hkey]
        rcases hvalue with hvalue | hvalue
        · exact ⟨hold.1, hvalue ▸ hold.2⟩
        · exact ⟨hold.1, hvalue ▸ h.1.2⟩
  exact hfold [] (List.forall_mem_nil _)

lemma inlineBack_eq_self {v : YCPValue} (h : Storable isprint v) (hkept : keptInline v = true) :
    inlineBack v = v := by
  induction h with
  | integer i => rw [inlineBack, readInteger, if_neg (bne_iff_ne.mp hkept)]
  | path =>
    rw [keptInline, List.all_eq_true] at hkept
    rw [inlineBack, YCPValue.map_eq_self_iff.mpr fun c hc => ?_]
    have hnul := hkept c hc
    rw [PathComponent.carried_eq_self]
    simpa using hnul
  | list _ ih =>
    rw [keptInline, keptInlineList_iff] at hkept
    rw [inlineBack, inlineBackList_eq_map, YCPValue.map_eq_self_iff.mpr fun v hv => ih v hv (hkept v hv)]
  | term _ _ ih =>
    rw [keptInline, keptInlineList_iff] at hkept
    rw [inlineBack, inlineBackList_eq_map, YCPValue.map_eq_self_iff.mpr fun v hv => ih v hv (hkept v hv)]
  | @map m hordered _ _ ihkeys ihvalues =>
    rw [keptInline, keptInlineMap_iff] at hkept
    have hsame : m.map (fun e => (inlineBack e.1, inlineBack e.2)) = m :=
      YCPValue.map_eq_self_iff.mpr fun e he =>
        Prod.ext (ihkeys e he (hkept e he).1) (ihvalues e he (hkept e he).2)
    rw [inlineBack, inlineBackMap_eq_map, hsame, YCPValue.rebuild_of_ordered hordered]
  | _ => rfl

lemma layoutBack_eq_self {v : YCPValue} (h : Storable isprint v) (hkept : keptLines v = true) :
    layoutBack v = v := by
  have hvalue := h
  induction h with
  | @list l helements ih =>
    rw [keptLines, keptLinesList_iff] at hkept
    have hsame : layoutBackList l = l := by
      induction l with
      | nil => rfl
      | cons v l ihl =>
        rw [List.forall_mem_cons] at hkept helements ih
        rw [layoutBackList, hkept.1.1, if_neg Bool.false_ne_true, ih.1 hkept.1.2 helements.1,
          ihl helements.2 ih.2 hkept.2 (.list helements.2)]
    rw [layoutBack, hsame]
  | @map m hordered hkeys hvalues _ ihvalues =>
    rw [keptLines, keptLinesMap_iff] at hkept
    have hsame : m.map (fun e => (inlineBack e.1, layoutBack e.2)) = m :=
      YCPValue.map_eq_self_iff.mpr fun e he =>
        Prod.ext (inlineBack_eq_self (hkeys e he) (hkept e he).1) (ihvalues e he (hkept e he).2 (hvalues e he))
    rw [layoutBack, layoutBackMap_eq_map, hsame, YCPValue.rebuild_of_ordered hordered]
  | _ => exact inlineBack_eq_self hvalue hkept

lemma zero_not_mem_carried (c : PathComponent) : 0 ∉ c.carried.component := by
  unfold PathComponent.carried
  split
  · exact zero_not_mem_cut c.component
  next hsimple =>
    rw [Bool.not_eq_true] at hsimple
    intro hmem
    exact (isSimplePathChar_spec 0 ((simpleComponent_spec (c.simple_text hsimple)).2.1 0 hmem)).2.2 rfl

/-- What comes back is kept the next time. -/
lemma keptInline_inlineBack {v : YCPValue} (h : Storable isprint v) : keptInline (inlineBack v) = true := by
  induction h with
  | integer i =>
    rw [inlineBack, keptInline, bne_iff_ne, readInteger]
    split
    · decide
    next hi => exact hi
  | @path p =>
    rw [inlineBack, keptInline, List.all_eq_true]
    intro c hc
    obtain ⟨d, -, rfl⟩ := List.mem_map.mp hc
    simpa using zero_not_mem_carried d
  | list _ ih =>
    rw [inlineBack, inlineBackList_eq_map, keptInline, keptInlineList_iff]
    exact List.forall_mem_map.mpr ih
  | term _ _ ih =>
    rw [inlineBack, inlineBackList_eq_map, keptInline, keptInlineList_iff]
    exact List.forall_mem_map.mpr ih
  | map _ _ _ ihkeys ihvalues =>
    rw [inlineBack, inlineBackMap_eq_map, keptInline, keptInlineMap_iff]
    exact forall_rebuild (P := (keptInline · = true)) (Q := (keptInline · = true))
      (List.forall_mem_map.mpr fun e he => ⟨ihkeys e he, ihvalues e he⟩)
  | _ => rfl

lemma isByteblock_layoutBack (v : YCPValue) : isByteblock (layoutBack v) = isByteblock v := by
  cases v <;> rfl

lemma keptLines_of_keptInline {v : YCPValue} (hlist : ∀ l, v ≠ .list l) (hmap : ∀ m, v ≠ .map m)
    (h : keptInline v = true) : keptLines v = true := by
  cases v with
  | list l => exact absurd rfl (hlist l)
  | map m => exact absurd rfl (hmap m)
  | _ => exact h

lemma keptLines_layoutBack {v : YCPValue} (h : Storable isprint v) : keptLines (layoutBack v) = true := by
  have hvalue := h
  induction h with
  | @list l helements ih =>
    rw [layoutBack, keptLines]
    induction l with
    | nil => rfl
    | cons v l ihl =>
      rw [List.forall_mem_cons] at helements ih
      have hmore := ihl helements.2 ih.2 (.list helements.2)
      rw [layoutBackList]
      split
      · exact hmore
      next hbyteblock =>
        rw [Bool.not_eq_true] at hbyteblock
        rw [keptLinesList, isByteblock_layoutBack, hbyteblock, ih.1 helements.1, hmore]
        rfl
  | map _ hkeys hvalues _ ihvalues =>
    rw [layoutBack, layoutBackMap_eq_map, keptLines, keptLinesMap_iff]
    exact forall_rebuild (P := (keptInline · = true)) (Q := (keptLines · = true))
      (List.forall_mem_map.mpr fun e he => ⟨keptInline_inlineBack (hkeys e he), ihvalues e he (hvalues e he)⟩)
  | _ =>
    exact keptLines_of_keptInline (fun l heq => by cases heq) (fun m heq => by cases heq)
      (keptInline_inlineBack hvalue)

lemma layoutBack_eq_self_iff {v : YCPValue} (h : Storable isprint v) :
    layoutBack v = v ↔ keptLines v = true := by
  refine ⟨fun heq => ?_, layoutBack_eq_self h⟩
  have hkept := keptLines_layoutBack h
  rwa [heq] at hkept

end YastCore.Transport
