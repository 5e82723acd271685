import YastCore.Lib.Loop
import YastCore.Transport.Text

/-!
# Bytes and texts in XML

`Xmlcode::writeBytep` and `Xmlcode::xmlify`, by which values are written as XML. Both move a pointer over
their input; the count that would end the first one stays where it is.
-/

namespace YastCore.Xmlcode

open Lines Loop Transport

/-! ### Bytes -/

def toHexc (v : UInt8) : Int := if v < 10 then 48 + v.toNat else if v < 16 then 65 + v.toNat - 10 else -1

/-- `<<` of an int. -/
def intText (i : Int) : Text := if i < 0 then 45 :: decimal i.natAbs else decimal i.natAbs

/-- The count, how many bytes are read, and the stream. -/
structure ByteWriter where
  i : UInt32
  bytep : ℕ
  str : Text

def ByteWriter.start : ByteWriter := ⟨0, 0, ascii "<bytes>"⟩

/-- One pass of the loop over the memory from the pointer on. -/
def writeBytepPass (memory : Text) (len : UInt32) (w : ByteWriter) : Pass ByteWriter Unit :=
  if w.i < len then
    match memory[w.bytep]? with
    | none => .crashes
    | some b =>
      .again ⟨w.i, w.bytep + 1, w.str ++ intText (toHexc ((b &&& 0xf0) >>> 4)) ++ intText (toHexc (b &&& 0x0f))⟩
  else .returns { w with str := w.str ++ ascii "</bytes>" } ()

/-- The two digits of each byte. -/
def hexOfBytes (bytes : Text) : Text := bytes.flatMap fun b => [hexDigit (b.toNat / 16), hexDigit (b.toNat % 16)]

/-- The loop ends, all bytes are read and no others, and their digits are written. -/
def WritesBytes (memory : Text) (len : UInt32) : Prop :=
  ∃ w, Returns (writeBytepPass memory len) .start w () ∧ w.bytep = len.toNat ∧
    w.str = ascii "<bytes>" ++ hexOfBytes (memory.take len.toNat) ++ ascii "</bytes>"

/-! ### Texts -/

/-- The characters that `strpbrk` looks for. -/
def isMarkup (c : UInt8) : Bool := c == 38 || c == 60 || c == 62 || c == 39 || c == 34

/-- The five predefined entities. -/
def entities : List (UInt8 × Text) :=
  [(38, ascii "&amp;"), (60, ascii "&lt;"), (62, ascii "&gt;"), (34, ascii "&quot;"), (39, ascii "&apos;")]

/-- The `switch`. -/
def entity (c : UInt8) : Text :=
  if c = 38 then ascii "&amp;"
  else if c = 60 then ascii "&lt;"
  else if c = 62 then ascii "&gt;"
  else if c = 34 then ascii "&quot;"
  else if c = 39 then ascii "&apos;"
  else []

lemma length_lt_of_dropWhile {p : UInt8 → Bool} {t rest : Text} {c : UInt8} (h : t.dropWhile p = c :: rest) :
    rest.length < t.length := by
  have hsuffix := (List.dropWhile_suffix p (l := t)).length_le
  rw [h, List.length_cons] at hsuffix
  omega

/-- The loop from `cptr` on. -/
def xmlifyFrom (cptr : Text) : Text :=
  match _h : cptr.dropWhile fun c => !isMarkup c with
  | [] => cptr
  | next :: rest => (cptr.takeWhile fun c => !isMarkup c) ++ entity next ++ xmlifyFrom rest
termination_by cptr.length
decreasing_by exact length_lt_of_dropWhile _h

def xmlify (s : Text) : Text := xmlifyFrom (cut s)

lemma length_drop_lt (c : UInt8) (n : ℕ) (rest : Text) : (rest.drop n).length < (c :: rest).length := by
  rw [List.length_drop, List.length_cons]
  omega

/-- The text with its entities replaced, from left to right. -/
def replaceEntities (t : Text) : Text :=
  match t with
  | [] => []
  | c :: rest =>
    match entities.find? fun e => e.2.isPrefixOf (c :: rest) with
    | some e => e.1 :: replaceEntities (rest.drop (e.2.length - 1))
    | none => c :: replaceEntities rest
termination_by t.length
decreasing_by
  · exact length_drop_lt c _ rest
  · exact Nat.lt_succ_self _

/-- Each character of the markup begins an entity. -/
def NoRawMarkup (t : Text) : Prop :=
  ∀ before c after, t = before ++ c :: after → isMarkup c = true → ∃ e ∈ entities, e.2 <+: c :: after

/-! ### The bytes are written for ever -/

/-- The count is never moved, so the loop does not end. -/
theorem writesBytes_iff (memory : Text) (len : UInt32) : WritesBytes memory len ↔ len = 0 := by
  constructor
  · rintro ⟨w, hreturns, -⟩
    by_contra hlen
    have hpos : 0 < len := UInt32.pos_iff_ne_zero.mpr hlen
    refine not_returns_of_invariant (fun w => w.i = 0) ?_ rfl hreturns
    intro w hw
    rw [writeBytepPass, hw, if_pos hpos]
    cases memory[w.bytep]? with
    | none => exact Or.inr rfl
    | some b => exact Or.inl ⟨_, rfl, rfl⟩
  · rintro rfl
    have hpass : writeBytepPass memory 0 .start =
        .returns { ByteWriter.start with str := ByteWriter.start.str ++ ascii "</bytes>" } () := rfl
    refine ⟨_, (returns_of_returns hpass).mpr ⟨rfl, rfl⟩, rfl, ?_⟩
    simp [hexOfBytes, ByteWriter.start]

/-! ### The texts come back -/

/-- A character as `xmlify` writes it. -/
def xmlChar (c : UInt8) : Text := if isMarkup c then entity c else [c]

lemma xmlChar_plain {c : UInt8} (h : isMarkup c = false) : xmlChar c = [c] := by
  rw [xmlChar, h]
  rfl

lemma flatMap_plain {t : Text} (h : ∀ c ∈ t, isMarkup c = false) : t.flatMap xmlChar = t := by
  induction t with
  | nil => rfl
  | cons c t ih =>
    rw [List.flatMap_cons, xmlChar_plain (h c List.mem_cons_self), ih fun d hd => h d (List.mem_cons_of_mem c hd)]
    rfl

lemma xmlifyFrom_eq (t : Text) : xmlifyFrom t = t.flatMap xmlChar := by
  induction t using xmlifyFrom.induct with
  | case1 t h =>
    have hplain : ∀ c ∈ t, isMarkup c = false := by simpa using List.dropWhile_eq_nil_iff.mp h
    rw [flatMap_plain hplain, xmlifyFrom]
    split
    next => rfl
    next heq => rw [h] at heq; cases heq
  | case2 t c rest h ih =>
    have hsplit := List.takeWhile_append_dropWhile (p := fun c => !isMarkup c) (l := t)
    have hplain : ∀ d ∈ t.takeWhile fun c => !isMarkup c, isMarkup d = false := by
      intro d hd
      simpa using List.mem_takeWhile_imp hd
    have hc : isMarkup c = true := by
      have hhead := List.head_dropWhile_not (fun c => !isMarkup c) (l := t) (by rw [h]; exact List.cons_ne_nil _ _)
      simpa [h] using hhead
    rw [xmlifyFrom]
    split
    next heq => rw [h] at heq; cases heq
    next c' rest' heq =>
      rw [h] at heq
      cases heq
      conv_rhs => rw [← hsplit, h, List.flatMap_append, flatMap_plain hplain, List.flatMap_cons, xmlChar, if_pos hc]
      rw [ih, List.append_assoc]

lemma isMarkup_cases {c : UInt8} (h : isMarkup c = true) : c = 38 ∨ c = 60 ∨ c = 62 ∨ c = 39 ∨ c = 34 := by
  simpa [isMarkup, or_assoc] using h

lemma ne_amp_of_plain {c : UInt8} (h : isMarkup c = false) : c ≠ 38 := by
  rintro rfl
  cases h

/-- An entity begins with a character of the markup and holds no other. -/
lemma entity_eq {c : UInt8} (h : isMarkup c = true) :
    ∃ body, entity c = 38 :: body ∧ (c, 38 :: body) ∈ entities ∧ ∀ d ∈ body, isMarkup d = false := by
  rcases isMarkup_cases h with rfl | rfl | rfl | rfl | rfl
  · exact ⟨ascii "amp;", rfl, by decide, by simp [ascii, isMarkup]⟩
  · exact ⟨ascii "lt;", rfl, by decide, by simp [ascii, isMarkup]⟩
  · exact ⟨ascii "gt;", rfl, by decide, by simp [ascii, isMarkup]⟩
  · exact ⟨ascii "apos;", rfl, by decide, by simp [ascii, isMarkup]⟩
  · exact ⟨ascii "quot;", rfl, by decide, by simp [ascii, isMarkup]⟩

lemma replaceEntities_xmlChar (c : UInt8) (rest : Text) :
    replaceEntities (xmlChar c ++ rest) = c :: replaceEntities rest := by
  cases hc : isMarkup c with
  | false =>
    have hnone : (entities.find? fun e => e.2.isPrefixOf (c :: rest)) = none := by
      have hne := Ne.symm (ne_amp_of_plain hc)
      simp [entities, ascii, hne]
    rw [xmlChar_plain hc, List.singleton_append, replaceEntities, hnone]
  | true =>
    rw [xmlChar, if_pos hc]
    rcases isMarkup_cases hc with rfl | rfl | rfl | rfl | rfl
    all_goals
      rw [replaceEntities.eq_def]
      simp [entity, entities, ascii]

lemma replaceEntities_flatMap (t : Text) : replaceEntities (t.flatMap xmlChar) = t := by
  induction t with
  | nil => simp [replaceEntities]
  | cons c t ih => rw [List.flatMap_cons, replaceEntities_xmlChar, ih]

/-- What stands before the last character is left alone. -/
lemma NoRawMarkup.plain_append {plain t : Text} (hplain : ∀ d ∈ plain, isMarkup d = false) (h : NoRawMarkup t) :
    NoRawMarkup (plain ++ t) := by
  intro before c after heq hc
  rcases List.append_eq_append_iff.mp heq with ⟨between, rfl, hrest⟩ | ⟨between, rfl, hrest⟩
  · exact h between c after hrest hc
  · cases between with
    | nil => exact h [] c after hrest.symm hc
    | cons d between =>
      rw [List.cons_append, List.cons.injEq] at hrest
      have hmem : d ∈ before ++ d :: between := by simp
      rw [hrest.1, hplain d hmem] at hc
      cases hc

lemma noRawMarkup_flatMap (t : Text) : NoRawMarkup (t.flatMap xmlChar) := by
  induction t with
  | nil =>
    intro before c after heq
    simp at heq
  | cons d t ih =>
    rw [List.flatMap_cons]
    cases hd : isMarkup d with
    | false =>
      rw [xmlChar_plain hd]
      exact ih.plain_append fun d' hd' => by rw [List.mem_singleton.mp hd', hd]
    | true =>
      obtain ⟨body, hentity, hmem, hbody⟩ := entity_eq hd
      rw [xmlChar, if_pos hd, hentity]
      intro before c after heq hc
      cases before with
      | nil =>
        refine ⟨_, hmem, ?_⟩
        rw [List.nil_append] at heq
        rw [← heq]
        exact List.prefix_append _ _
      | cons d' before =>
        rw [List.cons_append, List.cons_append, List.cons.injEq] at heq
        exact ih.plain_append hbody before c after heq.2 hc

/-- The texts come back whatever they hold; the bytes are written where there are none. -/
theorem xml_faithful_iff (memory : Text) (len : UInt32) (s : Text) :
    (WritesBytes memory len ∧ (0 ∉ s → replaceEntities (xmlify s) = s ∧ NoRawMarkup (xmlify s))) ↔ len = 0 := by
  have htext : 0 ∉ s → replaceEntities (xmlify s) = s ∧ NoRawMarkup (xmlify s) := by
    intro hnul
    rw [xmlify, cut_eq_self.mpr hnul, xmlifyFrom_eq]
    exact ⟨replaceEntities_flatMap s, noRawMarkup_flatMap s⟩
  rw [writesBytes_iff, and_iff_left htext]

/-- One byte is enough. -/
theorem writeBytep_one_byte : ¬ WritesBytes [0] 1 := by
  rw [writesBytes_iff]
  decide

end YastCore.Xmlcode
