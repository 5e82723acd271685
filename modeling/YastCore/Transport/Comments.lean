import YastCore.Transport.Scanner

/-!
# Comments

The scanner at work on a whole file: which part of the text a token takes, and the lines that it
leaves out as comments because they begin with `#`.
-/

namespace YastCore.Transport

open Lines

/-! ### What a token takes -/

lemma longest_suffix (p : UInt8 → Bool) (t : Text) : (longest p t).2 <:+ t := List.dropWhile_suffix p

lemma longest_cons_suffix {p : UInt8 → Bool} {c : UInt8} (t : Text) (hc : p c = true) :
    (longest p (c :: t)).2 <:+ t := by
  rw [longest, List.dropWhile_cons_of_pos hc]
  exact List.dropWhile_suffix p

lemma scanNumber_suffix {c : UInt8} {t rest : Text} {v : YCPValue} (hc : isDigit c = true)
    (h : scanNumber (c :: t) = some (v, rest)) : rest <:+ t := by
  have hdigits := longest_cons_suffix t hc
  rw [scanNumber] at h
  dsimp only at h
  split at h
  · cases h
  split at h
  · obtain ⟨w, -, heq⟩ := Option.map_eq_some_iff.mp h
    cases heq
    exact ((longest_suffix _ _).trans (List.drop_suffix 1 _)).trans hdigits
  · obtain ⟨w, -, heq⟩ := Option.map_eq_some_iff.mp h
    cases heq
    exact hdigits

lemma scanWord_suffix {c : UInt8} {t rest : Text} {v : YCPValue} (hc : isWordChar c = true)
    (h : scanWord (c :: t) = some (v, rest)) : rest <:+ t := by
  rw [scanWord] at h
  dsimp only at h
  split at h
  · cases h
  · obtain ⟨w, -, heq⟩ := Option.map_eq_some_iff.mp h
    cases heq
    exact longest_cons_suffix t hc

lemma scanBytes_suffix {bytes : List UInt8} {t rest : Text} {v : YCPValue}
    (h : scanBytes bytes t = some (v, rest)) : rest <:+ t := by
  fun_induction scanBytes bytes t with
  | case1 => cases h
  | case2 =>
    cases h
    exact List.nil_suffix
  | case3 => cases h
  | case4 bytes d t =>
    cases h
    exact List.suffix_cons _ _
  | case5 bytes c d t _ _ ih => exact (ih h).trans (List.suffix_cons _ _)
  | case6 bytes c d t _ _ _ ih =>
    exact ((ih h).trans (List.suffix_cons _ _)).trans (List.suffix_cons _ _)
  | case7 => cases h

lemma octalDigits_suffix (n : Nat) (t : Text) : (octalDigits n t).2 <:+ t := by
  induction n generalizing t with
  | zero => exact List.suffix_rfl
  | succ n ih =>
    cases t with
    | nil => exact List.suffix_rfl
    | cons d t =>
      rw [octalDigits]
      split
      · exact (ih t).trans (List.suffix_cons _ _)
      · exact List.suffix_rfl

lemma scanString_suffix {buffer t : Text} {q : Text × Text} (h : scanString buffer t = some q) :
    q.2 <:+ t := by
  fun_induction scanString buffer t with
  | case1 => cases h
  | case2 =>
    cases h
    exact List.suffix_cons _ _
  | case3 buffer t octal _ _ _ _ ih =>
    exact ((ih h).trans (octalDigits_suffix 3 t)).trans (List.suffix_cons _ _)
  | case4 buffer t octal _ _ _ _ ih =>
    exact ((ih h).trans (octalDigits_suffix 3 t)).trans (List.suffix_cons _ _)
  | case5 => cases h
  | case6 buffer d t _ _ _ ih =>
    exact ((ih h).trans (List.suffix_cons _ _)).trans (List.suffix_cons _ _)
  | case7 buffer c t _ _ ih => exact (ih h).trans (List.suffix_cons _ _)

lemma scanQuoted_join {t : Text} {q : Text × Text} (h : scanQuoted t = some q) : q.1 ++ q.2 = t := by
  fun_induction scanQuoted t generalizing q with
  | case1 => cases h
  | case2 =>
    cases h
    rfl
  | case3 => cases h
  | case4 d t =>
    cases h
    rfl
  | case5 => cases h
  | case6 d t _ _ ih =>
    obtain ⟨q', hq', rfl⟩ := Option.map_eq_some_iff.mp h
    rw [← ih hq']
    rfl
  | case7 c d t _ _ ih =>
    obtain ⟨q', hq', rfl⟩ := Option.map_eq_some_iff.mp h
    rw [← ih hq']
    rfl

lemma scanSegment_join {t : Text} {q : Text × Text} (h : scanSegment t = some q) : q.1 ++ q.2 = t := by
  cases t with
  | nil => cases h
  | cons c t =>
    rw [scanSegment] at h
    split at h
    · cases h
      exact congrArg (c :: ·) (longest_join _ t)
    · split at h
      next hquote =>
        obtain ⟨q', hq', rfl⟩ := Option.map_eq_some_iff.mp h
        rw [hquote, ← scanQuoted_join hq']
        rfl
      next => cases h

lemma scanSegments_join (n : Nat) (t : Text) :
    (scanSegments n t).1 ++ (scanSegments n t).2 = t := by
  induction n generalizing t with
  | zero => rfl
  | succ n ih =>
    rw [scanSegments]
    split
    next hdot =>
      obtain ⟨t', rfl⟩ : ∃ t', t = 46 :: t' := by
        cases t with
        | nil => cases hdot
        | cons c t' => exact ⟨t', by rw [Option.some.inj hdot]⟩
      split
      next => rfl
      next segment rest hsegment =>
        have hjoin : segment ++ rest = t' := scanSegment_join hsegment
        dsimp only
        rw [List.cons_append, List.append_assoc, ih rest, hjoin]
    next => rfl

lemma scanPath_suffix {t rest : Text} {v : YCPValue} (h : scanPath t = some (v, rest)) : rest <:+ t := by
  have hjoin := scanSegments_join (t.length + 1) (46 :: t)
  rw [scanPath] at h
  dsimp only at h
  split at h
  next =>
    cases h
    exact List.suffix_rfl
  next hempty =>
    obtain ⟨c, text, htext⟩ := List.exists_cons_of_ne_nil hempty
    rw [htext, List.cons_append, List.cons.injEq] at hjoin
    split at h
    · cases h
    split at h
    · cases h
    · split at h
      · cases h
      · cases h
        exact ⟨text, hjoin.2⟩

lemma scan_suffix_of_not_space {c : UInt8} {t rest : Text} {token : Token}
    (hspace : isspace c = false) (h : scan (c :: t) = some (token, rest)) : rest <:+ t := by
  have hmap {o : Option (YCPValue × Text)} (ho : o.map constantToken = some (token, rest))
      (hstep : ∀ v, o = some (v, rest) → rest <:+ t) : rest <:+ t := by
    obtain ⟨⟨w, rest'⟩, hw, heq⟩ := Option.map_eq_some_iff.mp ho
    cases heq
    exact hstep w hw
  rw [scan, hspace, if_neg Bool.false_ne_true] at h
  by_cases hdigit : isDigit c = true
  · rw [if_pos hdigit] at h
    exact hmap h fun v hv => scanNumber_suffix hdigit hv
  rw [if_neg hdigit] at h
  by_cases halpha : isAlpha c = true
  · rw [if_pos halpha] at h
    have hword : isWordChar c = true := by
      rw [isWordChar, isAlnum, halpha]
      rfl
    exact hmap h fun v hv => scanWord_suffix hword hv
  rw [if_neg halpha] at h
  by_cases hquote : c = 34
  · rw [if_pos hquote] at h
    obtain ⟨q, hq, heq⟩ := Option.map_eq_some_iff.mp h
    cases heq
    exact scanString_suffix hq
  rw [if_neg hquote] at h
  by_cases hbyteblock : c = 35
  · rw [if_pos hbyteblock] at h
    split at h
    · exact hmap h fun v hv => (scanBytes_suffix hv).trans (List.drop_suffix 1 t)
    · cases h
  rw [if_neg hbyteblock] at h
  by_cases hdot : c = 46
  · rw [if_pos hdot] at h
    exact hmap h fun v hv => scanPath_suffix hv
  rw [if_neg hdot] at h
  by_cases hsymbol : c = 96
  · rw [if_pos hsymbol] at h
    dsimp only at h
    split at h
    · cases h
      exact longest_suffix _ t
    · cases h
  rw [if_neg hsymbol] at h
  have hdrop : t.drop 1 <:+ t := List.drop_suffix 1 t
  split at h
  · split at h
    · cases h
      exact hdrop
    · cases h
  split at h
  · split at h
    · cases h
      exact hdrop
    · cases h
      exact List.suffix_rfl
  split at h
  · split at h
    · cases h
    · cases h
      exact List.suffix_rfl
  split at h
  · cases h
    exact List.suffix_rfl
  · cases h

lemma scan_space {c : UInt8} (t : Text) (hspace : isspace c = true) : scan (c :: t) = scan t := by
  rw [scan, if_pos hspace]

/-- A token takes at least one byte from the front of the text. -/
lemma scan_suffix {c : UInt8} {t rest : Text} {token : Token}
    (h : scan (c :: t) = some (token, rest)) : rest <:+ t := by
  induction t generalizing c with
  | nil =>
    cases hspace : isspace c with
    | true =>
      rw [scan_space [] hspace] at h
      cases h
    | false => exact scan_suffix_of_not_space hspace h
  | cons d t ih =>
    cases hspace : isspace c with
    | true =>
      rw [scan_space _ hspace] at h
      exact (ih h).trans (List.suffix_cons _ _)
    | false => exact scan_suffix_of_not_space hspace h

/-! ### Comment lines -/

/-- `^[\t ]*#.*$`; the end of the line must be there. -/
def isCommentLine (t : Text) : Bool :=
  (t.dropWhile fun c => c == 9 || c == 32).head? == some 35 && t.contains newline

/-- What the scanner takes notice of in a text: the lines that are comments are left out where the
scanner is at the start of a line, between two tokens. -/
def skipComments (atLineStart : Bool) : Text → Text
  | [] => []
  | c :: t =>
    if atLineStart && isCommentLine (c :: t) then skipComments false ((c :: t).dropWhile (· != newline))
    else if isspace c then c :: skipComments (c == newline) t
    else
      match _hscan : scan (c :: t) with
      | some (_, rest) => (c :: t).take ((c :: t).length - rest.length) ++ skipComments false rest
      | none => c :: t
termination_by t => 2 * t.length + atLineStart.toNat
decreasing_by
  · have hcomment : (atLineStart && isCommentLine (c :: t)) = true := ‹_›
    have hle := (List.dropWhile_suffix (· != newline) (l := c :: t)).length_le
    rw [Bool.and_eq_true] at hcomment
    rw [hcomment.1, Bool.toNat_true, Bool.toNat_false]
    omega
  · have hle := Bool.toNat_le (c == newline)
    simp only [List.length_cons]
    omega
  · have hle := (scan_suffix _hscan).length_le
    simp only [List.length_cons, Bool.toNat_false]
    omega

section Skipping

lemma skipComments_nil (b : Bool) : skipComments b [] = [] := by
  rw [skipComments]

lemma skipComments_space {b : Bool} {c : UInt8} (t : Text)
    (hcomment : (b && isCommentLine (c :: t)) = false) (hspace : isspace c = true) :
    skipComments b (c :: t) = c :: skipComments (c == newline) t := by
  rw [skipComments, hcomment, if_neg Bool.false_ne_true, if_pos hspace]

lemma skipComments_comment {t : Text} (h : isCommentLine t = true) :
    skipComments true t = skipComments false (t.dropWhile (· != newline)) := by
  cases t with
  | nil => cases h
  | cons c t => rw [skipComments, h, Bool.and_self, if_pos rfl]

lemma skipComments_token {c : UInt8} {seg rest : Text} {token : Token} (b : Bool)
    (hcomment : (b && isCommentLine (c :: (seg ++ rest))) = false) (hspace : isspace c = false)
    (hscan : scan (c :: (seg ++ rest)) = some (token, rest)) :
    skipComments b (c :: (seg ++ rest)) = c :: (seg ++ skipComments false rest) := by
  have hlength : (c :: (seg ++ rest)).length - rest.length = (c :: seg).length := by
    simp only [List.length_cons, List.length_append]
    omega
  rw [skipComments, hcomment, if_neg Bool.false_ne_true, hspace, if_neg Bool.false_ne_true]
  split
  next token' rest' heq =>
    rw [hscan] at heq
    cases heq
    rw [hlength, ← List.cons_append, List.take_left]
    rfl
  next heq =>
    rw [hscan] at heq
    cases heq

lemma scan_ne_self {t : Text} {token : Token} : scan t ≠ some (token, t) := by
  intro h
  cases t with
  | nil => cases h
  | cons c t =>
    have hle := (scan_suffix h).length_le
    rw [List.length_cons] at hle
    omega

lemma skipComments_step {seg rest : Text} {token : Token} (hline : newline ∉ seg)
    (hscan : scan (seg ++ rest) = some (token, rest)) :
    skipComments false (seg ++ rest) = seg ++ skipComments false rest := by
  induction seg with
  | nil => exact absurd hscan scan_ne_self
  | cons c seg ih =>
    rw [List.mem_cons, not_or] at hline
    cases hspace : isspace c with
    | true =>
      rw [List.cons_append, scan_space _ hspace] at hscan
      have hnot : (c == newline) = false := beq_eq_false_iff_ne.mpr (Ne.symm hline.1)
      rw [List.cons_append, skipComments_space _ rfl hspace, hnot, ih hline.2 hscan]
      rfl
    | false => exact skipComments_token false rfl hspace hscan

end Skipping

/-! ### Runs of tokens -/

/-- The scanner gets from one place of a text to another by whole tokens, one at least. -/
inductive Tokens : Text → Text → Prop where
  | one {t rest : Text} {token : Token} (hscan : scan t = some (token, rest)) : Tokens t rest
  | step {t mid rest : Text} {token : Token} (hscan : scan t = some (token, mid))
      (hrest : Tokens mid rest) : Tokens t rest

lemma Tokens.trans {t mid rest : Text} (h : Tokens t mid) (h' : Tokens mid rest) :
    Tokens t rest := by
  induction h with
  | one hscan => exact .step hscan h'
  | step hscan _ ih => exact .step hscan (ih h')

lemma scan_suffix_self {t rest : Text} {token : Token} (h : scan t = some (token, rest)) :
    rest <:+ t := by
  cases t with
  | nil => cases h
  | cons c t => exact (scan_suffix h).trans (List.suffix_cons c t)

lemma Tokens.suffix {t rest : Text} (h : Tokens t rest) : rest <:+ t := by
  induction h with
  | one hscan => exact scan_suffix_self hscan
  | step hscan _ ih => exact ih.trans (scan_suffix_self hscan)

/-- Tokens in the middle of a line are no comments. -/
lemma Tokens.skipComments {t rest : Text} (h : Tokens t rest) {seg : Text} (ht : t = seg ++ rest)
    (hline : newline ∉ seg) :
    Transport.skipComments false t = seg ++ Transport.skipComments false rest := by
  induction h generalizing seg with
  | one hscan =>
    rw [ht] at hscan ⊢
    exact skipComments_step hline hscan
  | @step t mid rest token hscan hrest ih =>
    obtain ⟨more, hmore⟩ := hrest.suffix
    obtain ⟨first, hfirst⟩ := scan_suffix_self hscan
    have hseg : seg = first ++ more := by
      apply List.append_cancel_right
      rw [← ht, ← hfirst, ← hmore, List.append_assoc]
    rw [hseg, List.mem_append, not_or] at hline
    have hstep : Transport.skipComments false t = first ++ Transport.skipComments false mid := by
      rw [← hfirst] at hscan ⊢
      exact skipComments_step hline.1 hscan
    rw [hstep, ih hmore.symm hline.2, hseg, List.append_assoc]

end YastCore.Transport
