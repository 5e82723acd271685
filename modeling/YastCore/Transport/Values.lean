import YastCore.Transport.Grammar

/-!
# Values between components

A value that is sent as text is received as the same value. The text of a value in one line is read by
the rules of the grammar, each value in it before what stands behind it.
-/

namespace YastCore.Transport

open Interp Lines

/-! ### Tokens of the text -/

/-- What can stand behind a value in a text: a colon only behind a key. -/
def Follows (v : YCPValue) (rest : Text) : Prop :=
  ∃ d r, rest = d :: r ∧ isDelimiter d = true ∧ (d = 58 → v.isMapKey = true)

lemma scan_blank (t : Text) : scan (32 :: t) = scan t := rfl

lemma scan_comma (t : Text) : scan (44 :: t) = some (.char 44, t) := rfl

lemma scan_open (t : Text) : scan (40 :: t) = some (.char 40, t) := rfl

lemma scan_close (t : Text) : scan (41 :: t) = some (.char 41, t) := rfl

lemma scan_bracket {t : Text} (h : t.head? ≠ some 58) : scan (93 :: t) = some (.char 93, t) :=
  if_neg h

lemma scan_colon {t : Text} (h : t.head? ≠ some 58) : scan (58 :: t) = some (.char 58, t) :=
  if_neg h

lemma scan_list (t : Text) : scan (91 :: t) = some (.char 91, t) := rfl

lemma scan_map (t : Text) : scan (36 :: 91 :: t) = some (.mapExpr, t) := rfl

lemma scan_closeBracket {t : Text} (h : t.head? = some 58) :
    scan (93 :: t) = some (.closeBracket, t.drop 1) :=
  if_pos h

lemma scan_doubleColon {t : Text} (h : t.head? = some 58) : scan (58 :: t) = none := if_pos h

lemma scan_symbol {name : Text} {d : UInt8} (r : Text) (hname : isSymbolName name = true)
    (hd : isWordChar d = false) : scan (96 :: (name ++ d :: r)) = some (.symbol name, d :: r) := by
  have hword : ∀ c ∈ name, isWordChar c = true := by
    rw [isSymbolName, Bool.and_eq_true, Bool.and_eq_true, List.all_eq_true] at hname
    exact hname.1.1
  have hscan (t : Text) : scan (96 :: t) =
      if isSymbolName (longest isWordChar t).1 = true then
        some (Token.symbol (longest isWordChar t).1, (longest isWordChar t).2)
      else none := rfl
  rw [hscan, longest_append r hword hd]
  exact if_pos hname

lemma scan_minus_append {t t' : Text} (r : Text) (h : scan t = some (.char 45, t')) :
    scan (t ++ r) = some (.char 45, t' ++ r) := by
  induction t with
  | nil => cases h
  | cons c t ih =>
    rw [scan] at h
    by_cases hspace : isspace c = true
    · rw [if_pos hspace] at h
      rw [List.cons_append, scan, if_pos hspace]
      exact ih h
    · rw [if_neg hspace] at h
      by_cases hchar : c = 40 ∨ c = 41 ∨ c = 91 ∨ c = 44 ∨ c = 45
      · rcases hchar with rfl | rfl | rfl | rfl | rfl <;> cases h
        rfl
      · rw [if_neg hchar] at h
        grind [constantToken, Option.map_eq_some_iff]

/-- What can stand behind a value in a text, at the end of a line too. -/
def Ends (v : YCPValue) (rest : Text) : Prop :=
  ∃ d r, rest = d :: r ∧ isStop d = true ∧ (d = 58 → v.isMapKey = true) ∧
    ∀ r', scan rest ≠ some (.char 40, r')

lemma Follows.ends {v : YCPValue} {rest : Text} (h : Follows v rest) : Ends v rest := by
  obtain ⟨d, r, rfl, hd, hcolon⟩ := h
  refine ⟨d, r, rfl, isStop_of_isDelimiter hd, hcolon, fun r' => ?_⟩
  by_cases hhead : r.head? = some 58
  · rcases delimiter_cases hd with rfl | rfl | rfl | rfl <;>
      simp [scan_comma, scan_close, scan_closeBracket hhead, scan_doubleColon hhead]
  · rcases delimiter_cases hd with rfl | rfl | rfl | rfl <;>
      simp [scan_comma, scan_close, scan_bracket hhead, scan_colon hhead]

lemma Ends.ne_colon {v : YCPValue} {rest : Text} (h : Ends v rest) (hkey : v.isMapKey = false) :
    rest.head? ≠ some 58 := by
  obtain ⟨d, r, rfl, -, hcolon, -⟩ := h
  intro heq
  rw [hcolon (Option.some.inj heq)] at hkey
  cases hkey

/-! ### Reading one value -/

/-- The text of the value is parsed as code for it, with enough fuel. -/
def Parses (isprint : UInt8 → Bool) (v : YCPValue) : Prop :=
  ∀ heap rest, Follows v rest → ∃ n p, (∀ fuel, n ≤ fuel →
    expression fuel heap (toText isprint v ++ rest) = some p) ∧ Result heap v rest p

lemma Reads.head_ne_colon {text rest : Text} {v : YCPValue} (h : Reads text v rest) :
    text.head? ≠ some 58 := by
  intro hhead
  obtain ⟨token, mid, hscan⟩ : ∃ token mid, scan text = some (token, mid) := by
    cases h.tokens with
    | one hscan => exact ⟨_, _, hscan⟩
    | step hscan _ => exact ⟨_, _, hscan⟩
  cases text with
  | nil => cases hhead
  | cons c t =>
    rw [List.head?_cons, Option.some.injEq] at hhead
    subst hhead
    by_cases hcolon : t.head? = some 58
    · rw [scan_doubleColon hcolon] at hscan
      cases hscan
    · exact h.ne_char (.inr (.inl rfl)) (scan_colon hcolon)

/-- The text of a value in one line is read as a value. -/
def ReadsAs (isprint : UInt8 → Bool) (v w : YCPValue) : Prop :=
  ∀ rest, Ends v rest → Reads (toText isprint v ++ rest) w rest

lemma reads_leaf {t : Text} {w : YCPValue} {d : UInt8} (r : Text) (h : scanLeaf t = some w) (hnull : w.isNull = false)
    (hd : isStop d = true) (hcolon : d = 58 → w.isMapKey = true) : Reads (t ++ d :: r) w (d :: r) := by
  unfold scanLeaf at h
  split at h
  next u hscan =>
    cases h
    exact reads_constant (scan_append r hscan hd hcolon) hnull
  next t hscan =>
    split at h
    next j hscan' =>
      cases h
      exact reads_negated (scan_minus_append _ hscan) (scan_append r hscan' hd fun _ => rfl)
    next => cases h
  next => cases h

lemma readsAs_leaf {isprint : UInt8 → Bool} {v w : YCPValue}
    (h : scanLeaf (toText isprint v) = some w) (hnull : w.isNull = false)
    (hkey : w.isMapKey = v.isMapKey) : ReadsAs isprint v w := by
  rintro rest ⟨d, r, rfl, hd, hcolon, -⟩
  rw [← hkey] at hcolon
  exact reads_leaf r h hnull hd hcolon

lemma readsAs_symbol {isprint : UInt8 → Bool} {name : Text} (hname : isSymbolName name = true) :
    ReadsAs isprint (.symbol name) (.symbol name) := by
  rintro rest ⟨d, r, rfl, hd, -, hplain⟩
  refine reads_symbol ?_ hplain
  rw [toText]
  exact scan_symbol r hname (isWordChar_stop hd)

/-! ### Lists and terms -/

lemma follows_commaTail {isprint : UInt8 → Bool} (v : YCPValue) (l : List YCPValue) (d : UInt8)
    (rest : Text) (hd : isDelimiter d = true) (hcolon : d ≠ 58) :
    Follows v (commaTail isprint l ++ d :: rest) := by
  cases l with
  | nil => exact ⟨d, rest, by rw [commaTail]; rfl, hd, fun heq => absurd heq hcolon⟩
  | cons w l => exact ⟨44, _, by rw [commaTail]; rfl, rfl, fun heq => by cases heq⟩

lemma listRest_commaTail {isprint : UInt8 → Bool} {f : YCPValue → YCPValue} {l : List YCPValue}
    (hl : ∀ v ∈ l, ReadsAs isprint v (f v)) {rest : Text} (hrest : rest.head? ≠ some 58) :
    ListRest (commaTail isprint l ++ 93 :: rest) (l.map f) rest := by
  induction l with
  | nil => exact .close (scan_bracket hrest)
  | cons v l ih =>
    rw [List.forall_mem_cons] at hl
    have hv := hl.1 _ (@follows_commaTail isprint v l 93 rest rfl (by decide)).ends
    have htext : commaTail isprint (v :: l) ++ 93 :: rest =
        44 :: 32 :: (toText isprint v ++ (commaTail isprint l ++ 93 :: rest)) := by
      rw [commaTail, List.append_assoc, List.append_assoc]
      rfl
    rw [htext]
    exact .next (scan_comma _) (hv.congr (scan_blank _)) (ih hl.2)

lemma readsAs_list {isprint : UInt8 → Bool} {f : YCPValue → YCPValue} {l : List YCPValue}
    (hl : ∀ v ∈ l, ReadsAs isprint v (f v)) : ReadsAs isprint (.list l) (.list (l.map f)) := by
  intro rest hends
  have hrest := hends.ne_colon rfl
  have htext : toText isprint (.list l) ++ rest = 91 :: (commaList isprint l ++ 93 :: rest) := by
    simp [toText]
  rw [htext]
  refine reads_list (scan_list _) ?_
  cases l with
  | nil => exact scan_bracket hrest
  | cons v l =>
    rw [List.forall_mem_cons] at hl
    rw [commaList, List.append_assoc]
    exact ⟨_, hl.1 _ (follows_commaTail v l 93 rest rfl (by decide)).ends, listRest_commaTail hl.2 hrest⟩

lemma parametersRest_commaTail {isprint : UInt8 → Bool} {f : YCPValue → YCPValue} {l : List YCPValue}
    (hl : ∀ v ∈ l, ReadsAs isprint v (f v)) (rest : Text) :
    ParametersRest (commaTail isprint l ++ 41 :: rest) (l.map f) rest := by
  induction l with
  | nil => exact .close (scan_close rest)
  | cons v l ih =>
    rw [List.forall_mem_cons] at hl
    have hv := hl.1 _ (@follows_commaTail isprint v l 41 rest rfl (by decide)).ends
    have htext : commaTail isprint (v :: l) ++ 41 :: rest =
        44 :: 32 :: (toText isprint v ++ (commaTail isprint l ++ 41 :: rest)) := by
      rw [commaTail, List.append_assoc, List.append_assoc]
      rfl
    rw [htext]
    exact .next (scan_comma _) (hv.congr (scan_blank _)) (ih hl.2)

lemma zero_not_mem_symbolName {name : Text} (hname : isSymbolName name = true) : 0 ∉ name := by
  intro hmem
  rw [isSymbolName, Bool.and_eq_true, Bool.and_eq_true, List.all_eq_true] at hname
  cases hname.1.1 0 hmem

/-- What stands behind a term does not matter. -/
lemma reads_termText {isprint : UInt8 → Bool} {f : YCPValue → YCPValue} {name : Text}
    (hname : isSymbolName name = true) {l : List YCPValue} (hl : ∀ v ∈ l, ReadsAs isprint v (f v))
    (rest : Text) : Reads (toText isprint (.term name l) ++ rest) (.term name (l.map f)) rest := by
  have htext : toText isprint (.term name l) ++ rest =
      96 :: (name ++ 32 :: 40 :: (commaList isprint l ++ 41 :: rest)) := by
    rw [toText]
    simp [ascii]
  rw [htext]
  refine reads_term (zero_not_mem_symbolName hname) (scan_symbol _ hname rfl)
    ((scan_blank _).trans (scan_open _)) ?_
  cases l with
  | nil => exact scan_close rest
  | cons v l =>
    rw [List.forall_mem_cons] at hl
    rw [commaList, List.append_assoc]
    exact ⟨_, hl.1 _ (follows_commaTail v l 41 rest rfl (by decide)).ends,
      parametersRest_commaTail hl.2 rest⟩

lemma readsAs_term {isprint : UInt8 → Bool} {f : YCPValue → YCPValue} {name : Text}
    (hname : isSymbolName name = true) {l : List YCPValue} (hl : ∀ v ∈ l, ReadsAs isprint v (f v)) :
    ReadsAs isprint (.term name l) (.term name (l.map f)) :=
  fun rest _ => reads_termText hname hl rest

/-! ### Maps -/

/-- The key and the value of an entry are read as values, the key as a key. -/
structure EntryReadsAs (isprint : UInt8 → Bool) (e e' : YCPValue × YCPValue) : Prop where
  isMapKey : e.1.isMapKey = true
  isMapKey' : e'.1.isMapKey = true
  key : ReadsAs isprint e.1 e'.1
  value : ReadsAs isprint e.2 e'.2

lemma follows_entryTail {isprint : UInt8 → Bool} (v : YCPValue) (m : List (YCPValue × YCPValue))
    (rest : Text) : Follows v (entryTail isprint m ++ 93 :: rest) := by
  cases m with
  | nil => exact ⟨93, rest, by rw [entryTail]; rfl, rfl, fun heq => by cases heq⟩
  | cons e m => exact ⟨44, _, by rw [entryTail]; rfl, rfl, fun heq => by cases heq⟩

lemma EntryReadsAs.reads {isprint : UInt8 → Bool} {e e' : YCPValue × YCPValue}
    (h : EntryReadsAs isprint e e') {rest : Text} (hrest : Follows e.2 rest) :
    ReadsEntry (entryText isprint e ++ rest) e' rest where
  isMapKey := h.isMapKey'
  parts := by
    have htext : entryText isprint e ++ rest =
        toText isprint e.1 ++ 58 :: (toText isprint e.2 ++ rest) := by
      rw [entryText, List.append_assoc, List.cons_append]
    have hvalue := h.value rest hrest.ends
    have hkey := h.key _ (Follows.ends ⟨58, toText isprint e.2 ++ rest, rfl, rfl, fun _ => h.isMapKey⟩)
    rw [htext]
    exact ⟨_, _, hkey, scan_colon hvalue.head_ne_colon, hvalue⟩

lemma mapRest_entryTail {isprint : UInt8 → Bool} {g : YCPValue × YCPValue → YCPValue × YCPValue}
    {m : List (YCPValue × YCPValue)} (hm : ∀ e ∈ m, EntryReadsAs isprint e (g e)) {rest : Text}
    (hrest : rest.head? ≠ some 58) : MapRest (entryTail isprint m ++ 93 :: rest) (m.map g) rest := by
  induction m with
  | nil => exact .close (scan_bracket hrest)
  | cons e m ih =>
    rw [List.forall_mem_cons] at hm
    have he := hm.1.reads (@follows_entryTail isprint e.2 m rest)
    have htext : entryTail isprint (e :: m) ++ 93 :: rest =
        44 :: 32 :: (entryText isprint e ++ (entryTail isprint m ++ 93 :: rest)) := by
      rw [entryTail, List.append_assoc, List.append_assoc]
      rfl
    rw [htext]
    exact .next (scan_comma _) (he.congr (scan_blank _)) (ih hm.2)

lemma readsAs_entries {isprint : UInt8 → Bool} {g : YCPValue × YCPValue → YCPValue × YCPValue}
    {m : List (YCPValue × YCPValue)} (hm : ∀ e ∈ m, EntryReadsAs isprint e (g e)) :
    ReadsAs isprint (.map m) (.map (YCPValue.rebuild (m.map g))) := by
  intro rest hends
  have hrest := hends.ne_colon rfl
  have htext : toText isprint (.map m) ++ rest = 36 :: 91 :: (entryList isprint m ++ 93 :: rest) := by
    simp [toText, ascii]
  rw [htext]
  refine reads_map (scan_map _) ?_
  cases m with
  | nil => exact scan_bracket hrest
  | cons e m =>
    rw [List.forall_mem_cons] at hm
    rw [entryList, List.append_assoc]
    exact ⟨_, hm.1.reads (follows_entryTail e.2 m rest), mapRest_entryTail hm.2 hrest⟩

/-! ### Values between components -/

/-- The leaves that are constants of the scanner. -/
def isLeaf : YCPValue → Bool
  | .void => true
  | .boolean _ => true
  | .integer _ => true
  | .string _ => true
  | .byteblock _ => true
  | .path _ => true
  | _ => false

/-- The values that can be sent: each leaf is scanned back from its own text, the names are symbols of
the scanner. -/
inductive Transportable (isprint : UInt8 → Bool) : YCPValue → Prop where
  | leaf {v : YCPValue} (isLeaf : isLeaf v = true) (scanned : scanLeaf (toText isprint v) = some v) :
      Transportable isprint v
  | symbol {name : Text} (isName : isSymbolName name = true) : Transportable isprint (.symbol name)
  | list {l : List YCPValue} (elements : ∀ v ∈ l, Transportable isprint v) : Transportable isprint (.list l)
  | term {name : Text} {l : List YCPValue} (isName : isSymbolName name = true)
      (args : ∀ v ∈ l, Transportable isprint v) : Transportable isprint (.term name l)
  | map {m : List (YCPValue × YCPValue)} (ordered : YCPValue.MapOrdered m)
      (keys : ∀ e ∈ m, Transportable isprint e.1) (values : ∀ e ∈ m, Transportable isprint e.2) :
      Transportable isprint (.map m)

lemma Transportable.not_null {isprint : UInt8 → Bool} {v : YCPValue} (h : Transportable isprint v) :
    v.isNull = false := by
  cases h with
  | leaf hleaf _ =>
    cases v with
    | null => cases hleaf
    | _ => rfl
  | _ => rfl

lemma Transportable.readsAs {isprint : UInt8 → Bool} {v : YCPValue} (h : Transportable isprint v) :
    ReadsAs isprint v v := by
  induction h with
  | @leaf v hleaf hscanned =>
    refine readsAs_leaf hscanned ?_ rfl
    cases v with
    | null => cases hleaf
    | _ => rfl
  | symbol hname => exact readsAs_symbol hname
  | list _ ih =>
    have hlist := readsAs_list (f := id) ih
    rwa [List.map_id] at hlist
  | term hname _ ih =>
    have hterm := readsAs_term (f := id) hname ih
    rwa [List.map_id] at hterm
  | @map m hordered _ _ ihkeys ihvalues =>
    have hmap := readsAs_entries (g := id) fun e he =>
      ⟨hordered.keys e he, hordered.keys e he, ihkeys e he, ihvalues e he⟩
    rwa [List.map_id, YCPValue.rebuild_of_ordered hordered] at hmap

lemma Transportable.parses {isprint : UInt8 → Bool} {v : YCPValue} (h : Transportable isprint v) :
    Parses isprint v :=
  fun heap rest hrest => (h.readsAs rest hrest.ends).code heap

end YastCore.Transport
