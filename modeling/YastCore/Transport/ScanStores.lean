import YastCore.Transport.ScanBuffer

/-!
# The stores of the start condition `str`

Every rule of `str` looks in its own way whether there is room in `m_scandataBuffer` before it stores,
and the closing quote does not look at all. The run over a literal goes on behind a store that is
outside the buffer, as the scanner does.
-/

namespace YastCore.Transport

/-! ### The rules -/

/-- What a rule of `str` has matched; `yyleng` is an `int`. -/
inductive StrRule
  | close
  | octal (digits : Text)
  | escape (c : UInt8)
  | newline
  | run (yytext : Text) (h : yytext.length < 2 ^ 31)

/-- The rules that match from a place inside the literal on, up to its end or the end of the text. -/
def strRules : Text → List StrRule
  | [] => []
  | c :: text =>
    if c = 34 then [.close]
    else if c = 92 then
      let octal := octalDigits 3 text
      if octal.1 ≠ [] then .octal octal.1 :: strRules octal.2
      else
        match text with
        | [] => []
        | d :: text => .escape d :: strRules text
    else if c = 10 then .newline :: strRules text
    else if h : (c :: text.takeWhile isStringChar).length < 2 ^ 31 then
      .run (c :: text.takeWhile isStringChar) h :: strRules (text.dropWhile isStringChar)
    else []
termination_by t => t.length
decreasing_by
  · have := length_octalDigits_le 3 text
    simp only [List.length_cons]
    omega
  · simp only [List.length_cons]
    omega
  · simp only [List.length_cons]
    omega
  · have := (List.dropWhile_suffix isStringChar (l := text)).length_le
    simp only [List.length_cons]
    omega

/-- The value of a difference or a sum that is stored in an `int`. -/
def asInt (x : Int) : Int := (x + 2 ^ 31) % 2 ^ 32 - 2 ^ 31

/-- The buffer, and `m_scandataBufferPtr - m_scandataBuffer`. -/
structure StrState where
  buffer : ScanBuffer
  ptr : Int

/-- Bytes that are stored one behind the other in a buffer of a size. -/
structure Store where
  first : Int
  count : Nat
  size : Nat

def Store.InBounds (store : Store) : Prop := 0 ≤ store.first ∧ store.first + store.count ≤ store.size

section Steps

-- whether `realloc` has memory for so many bytes
variable (realloc : Nat → Bool)

/-- `extend_scanbuffer`; a size that is no `int` is more than `realloc` has. -/
def extendScanbuffer (buffer : ScanBuffer) (addsize : Nat) : Option ScanBuffer :=
  if realloc (grown buffer.size addsize) then buffer.extend addsize else none

/-- `if (used + room >= m_scandataBufferSize)` with the extension by `needed`; `none` is `SCANNER_ERROR`. -/
def StrState.reserve (s : StrState) (room needed : Nat) : Option StrState :=
  if s.buffer.size ≤ asInt (asInt s.ptr + room) then
    (extendScanbuffer realloc s.buffer needed).map fun buffer => ⟨buffer, asInt s.ptr⟩
  else some s

/-- `*m_scandataBufferPtr++` -/
def StrState.put (s : StrState) : List Store × Option StrState :=
  ([⟨s.ptr, 1, s.buffer.size⟩], some { s with ptr := s.ptr + 1 })

/-- The rules for one character, which is `stored` or only looked at. -/
def StrState.character (s : StrState) (stored : Bool) : List Store × Option StrState :=
  match s.reserve realloc 0 1 with
  | none => ([], none)
  | some s => if stored then s.put else ([], some s)

/-- The value of an octal escape is a character other than NUL. -/
def isOctalChar (digits : Text) : Bool := 0 < octalValue digits && octalValue digits ≤ 255

/-- The action of a rule: the stores, and the state unless the literal is over. -/
def strStep (s : StrState) : StrRule → List Store × Option StrState
  | .close => ([⟨s.ptr, 1, s.buffer.size⟩], none)
  | .octal digits => s.character realloc (isOctalChar digits)
  | .escape c => s.character realloc (c != 10)
  | .newline => s.character realloc true
  | .run yytext _ =>
    match s.reserve realloc yytext.length yytext.length with
    | none => ([], none)
    -- `strcpy` stops at a NUL in the text
    | some s => ([⟨s.ptr, (cut yytext).length + 1, s.buffer.size⟩], some { s with ptr := s.ptr + yytext.length })

/-- The states in which the rules are matched. -/
def strRun : StrState → List StrRule → List (StrState × StrRule)
  | _, [] => []
  | s, rule :: rules =>
    (s, rule) ::
      match (strStep realloc s rule).2 with
      | some s' => strRun s' rules
      | none => []

/-- The run over a literal from behind its opening quote on. -/
def literalRun (buffer : ScanBuffer) (text : Text) : List (StrState × StrRule) :=
  match if buffer.size = 0 then extendScanbuffer realloc buffer 1 else some buffer with
  | some buffer => strRun realloc ⟨buffer, 0⟩ (strRules text)
  | none => []

/-- No store is outside the buffer. -/
def StoresInBounds (buffer : ScanBuffer) (text : Text) : Prop :=
  ∀ e ∈ literalRun realloc buffer text, ∀ store ∈ (strStep realloc e.1 e.2).1, store.InBounds

/-! ### What a rule asks of the state before it -/

/-- The closing quote needs a place for its NUL. A run must not begin in a full buffer that grows by
no more than its length, and the count must not leave the range of an `int`, unless a NUL in the run
ends the copy before. The other rules are right wherever the pointer is in the buffer or behind it. -/
def StrState.Fits (s : StrState) : StrRule → Prop
  | .close => s.ptr < s.buffer.size
  | .octal digits => isOctalChar digits = true → s.ptr ≤ s.buffer.size
  | .escape c => c ≠ 10 → s.ptr ≤ s.buffer.size
  | .newline => s.ptr ≤ s.buffer.size
  | .run yytext _ =>
    if s.buffer.size ≤ asInt (s.ptr + yytext.length) then
      extendScanbuffer realloc s.buffer yytext.length ≠ none →
        s.ptr ≤ s.buffer.size ∧ (s.ptr = s.buffer.size → max s.buffer.size 1024 ≤ yytext.length → 0 ∈ yytext)
    else 2 ^ 31 ≤ s.ptr + yytext.length → s.ptr + (cut yytext).length < s.buffer.size

/-- The pointer is in the buffer or just behind it, or it was lost when the count left the range of an
`int`. -/
structure StrState.Valid (s : StrState) : Prop where
  size_le : 1024 ≤ s.buffer.size
  ptr_le : 0 ≤ s.ptr ∧ s.ptr ≤ s.buffer.size ∨ 2 ^ 31 ≤ s.ptr ∧ s.ptr < 2 ^ 32

variable {realloc} {s : StrState}

lemma StrState.Valid.size_lt (h : s.Valid) : s.buffer.size < 2 ^ 31 := by
  rcases s.buffer.valid with h0 | ⟨-, hlt⟩
  · have hle := h.size_le
    omega
  · exact hlt

lemma extendScanbuffer_size {buffer buffer' : ScanBuffer} {addsize : Nat}
    (h : extendScanbuffer realloc buffer addsize = some buffer') : buffer'.size = grown buffer.size addsize := by
  unfold extendScanbuffer ScanBuffer.extend at h
  split at h
  · split at h
    · rw [← Option.some.inj h]
    · cases h
  · cases h

lemma asInt_asInt (x : Int) (n : Nat) : asInt (asInt x + n) = asInt (x + n) := by
  unfold asInt
  omega

lemma asInt_of_lt {x : Int} (hlow : 0 ≤ x) (hhigh : x < 2 ^ 31) : asInt x = x := by
  unfold asInt
  omega

lemma asInt_of_ge {x : Int} (hlow : 2 ^ 31 ≤ x) (hhigh : x < 2 ^ 32) : asInt x = x - 2 ^ 32 := by
  unfold asInt
  omega

/-! ### The rules for one character -/

/-- The room that is made for one character. A pointer that was lost stays where it is. -/
lemma reserve_one (h : s.Valid) {s' : StrState} (hreserve : s.reserve realloc 0 1 = some s') :
    s.ptr ≤ s.buffer.size ∧ s'.ptr = s.ptr ∧ 1024 ≤ s'.buffer.size ∧ s'.ptr < s'.buffer.size ∨
      s.buffer.size < s.ptr ∧ s' = s := by
  have hlow := h.size_le
  have hhigh := h.size_lt
  rw [StrState.reserve, asInt_asInt, Nat.cast_zero, add_zero] at hreserve
  rcases h.ptr_le with ⟨hptr, hle⟩ | ⟨hptr, hlost⟩
  · refine .inl ⟨hle, ?_⟩
    rw [asInt_of_lt hptr (by omega)] at hreserve
    split at hreserve
    · next hfull =>
      obtain ⟨buffer, hextend, rfl⟩ := Option.map_eq_some_iff.mp hreserve
      have hsize : s.buffer.size < buffer.size ∧ 1024 ≤ buffer.size := by
        rw [extendScanbuffer_size hextend, grown]
        omega
      refine ⟨rfl, hsize.2, ?_⟩
      simp only
      omega
    · next hroom =>
      obtain rfl := Option.some.inj hreserve
      exact ⟨rfl, hlow, by omega⟩
  · refine .inr ⟨by omega, ?_⟩
    rw [asInt_of_ge hptr hlost, if_neg (by omega)] at hreserve
    exact (Option.some.inj hreserve).symm

/-- Only a pointer behind the last place makes the buffer grow. -/
lemma le_of_refused (h : s.Valid) (hreserve : s.reserve realloc 0 1 = none) : s.ptr ≤ s.buffer.size := by
  rcases h.ptr_le with ⟨-, hle⟩ | ⟨hptr, hlost⟩
  · exact hle
  · rw [StrState.reserve, asInt_asInt, Nat.cast_zero, add_zero, asInt_of_ge hptr hlost, if_neg (by omega)] at hreserve
    cases hreserve

lemma character_inBounds_iff (h : s.Valid) (stored : Bool) :
    (∀ store ∈ (s.character realloc stored).1, store.InBounds) ↔ (stored = true → s.ptr ≤ s.buffer.size) := by
  have hlow := h.ptr_le
  unfold StrState.character
  cases hreserve : s.reserve realloc 0 1 with
  | none => exact iff_of_true (by simp) fun _ => le_of_refused h hreserve
  | some s' =>
    cases stored with
    | false => simp
    | true =>
      simp only [if_true, StrState.put, List.forall_mem_singleton, Store.InBounds, forall_const]
      push_cast
      rcases reserve_one h hreserve with ⟨hle, hptr, -, hlt⟩ | ⟨hlost, rfl⟩
      · exact iff_of_true ⟨by omega, by omega⟩ hle
      · exact iff_of_false (by omega) (by omega)

lemma character_valid (h : s.Valid) {stored : Bool} (hfits : stored = true → s.ptr ≤ s.buffer.size) :
    ∀ next, (s.character realloc stored).2 = some next → next.Valid := by
  intro next hnext
  have hlow := h.ptr_le
  have hsmall := h.size_lt
  unfold StrState.character at hnext
  cases hreserve : s.reserve realloc 0 1 with
  | none => simp [hreserve] at hnext
  | some s' =>
    rw [hreserve] at hnext
    rcases reserve_one h hreserve with ⟨hle, hptr, hsize, hlt⟩ | ⟨hlost, rfl⟩
    · cases stored with
      | false =>
        obtain rfl := Option.some.inj hnext
        exact ⟨hsize, .inl ⟨by omega, by omega⟩⟩
      | true =>
        obtain rfl := Option.some.inj hnext
        exact ⟨hsize, .inl ⟨by simp only; omega, by simp only; omega⟩⟩
    · cases stored with
      | false =>
        obtain rfl := Option.some.inj hnext
        exact h
      | true =>
        have hle := hfits rfl
        omega

/-! ### The rule for a run -/

lemma length_cut_lt_iff (t : Text) : (cut t).length < t.length ↔ 0 ∈ t := by
  have hle := cut_length_le t
  rw [← not_iff_not, ← cut_length_eq_iff]
  omega

section Run

variable {yytext : Text} {hlen : yytext.length < 2 ^ 31}

/-- A run that is copied where the pointer stands. -/
lemma run_of_room (hroom : ¬(s.buffer.size : Int) ≤ asInt (s.ptr + yytext.length)) :
    strStep realloc s (.run yytext hlen) =
      ([⟨s.ptr, (cut yytext).length + 1, s.buffer.size⟩], some { s with ptr := s.ptr + yytext.length }) := by
  have hreserve : s.reserve realloc yytext.length yytext.length = some s := by
    rw [StrState.reserve, asInt_asInt, if_neg hroom]
  simp only [strStep, hreserve]

lemma run_of_refused (hfull : (s.buffer.size : Int) ≤ asInt (s.ptr + yytext.length))
    (hextend : extendScanbuffer realloc s.buffer yytext.length = none) :
    strStep realloc s (.run yytext hlen) = ([], none) := by
  have hreserve : s.reserve realloc yytext.length yytext.length = none := by
    rw [StrState.reserve, asInt_asInt, if_pos hfull, hextend, Option.map_none]
  simp only [strStep, hreserve]

lemma run_of_extended (hfull : (s.buffer.size : Int) ≤ asInt (s.ptr + yytext.length)) {buffer : ScanBuffer}
    (hextend : extendScanbuffer realloc s.buffer yytext.length = some buffer) :
    strStep realloc s (.run yytext hlen) =
      ([⟨asInt s.ptr, (cut yytext).length + 1, buffer.size⟩], some ⟨buffer, asInt s.ptr + yytext.length⟩) := by
  have hreserve : s.reserve realloc yytext.length yytext.length = some ⟨buffer, asInt s.ptr⟩ := by
    rw [StrState.reserve, asInt_asInt, if_pos hfull, hextend, Option.map_some]
  simp only [strStep, hreserve]

lemma run_inBounds_iff (h : s.Valid) :
    (∀ store ∈ (strStep realloc s (.run yytext hlen)).1, store.InBounds) ↔ s.Fits realloc (.run yytext hlen) := by
  have hlow := h.size_le
  have hhigh := h.size_lt
  have hcut := cut_length_le yytext
  have hnul := length_cut_lt_iff yytext
  by_cases hfull : (s.buffer.size : Int) ≤ asInt (s.ptr + yytext.length)
  · rw [StrState.Fits, if_pos hfull]
    cases hextend : extendScanbuffer realloc s.buffer yytext.length with
    | none =>
      rw [run_of_refused hfull hextend]
      simp
    | some buffer =>
      rw [run_of_extended hfull hextend]
      have hsize := extendScanbuffer_size hextend
      unfold grown at hsize
      simp only [List.forall_mem_singleton, Store.InBounds, ne_eq, reduceCtorEq, not_false_eq_true, forall_const, hsize]
      push_cast
      rcases h.ptr_le with ⟨hptr, hle⟩ | ⟨hptr, hlost⟩
      · rw [asInt_of_lt hptr (by omega)]
        rw [← hnul]
        omega
      · rw [asInt_of_ge hptr hlost]
        exact iff_of_false (by omega) (by omega)
  · rw [StrState.Fits, if_neg hfull, run_of_room hfull]
    simp only [List.forall_mem_singleton, Store.InBounds]
    push_cast
    rcases h.ptr_le with ⟨hptr, hle⟩ | ⟨hptr, hlost⟩
    · by_cases hwraps : 2 ^ 31 ≤ s.ptr + yytext.length
      · omega
      · rw [asInt_of_lt (by omega) (by omega)] at hfull
        omega
    · omega

lemma run_valid (h : s.Valid) (hfits : s.Fits realloc (.run yytext hlen)) :
    ∀ next, (strStep realloc s (.run yytext hlen)).2 = some next → next.Valid := by
  intro next hnext
  have hlow := h.size_le
  have hhigh := h.size_lt
  have hlength := hlen
  by_cases hfull : (s.buffer.size : Int) ≤ asInt (s.ptr + yytext.length)
  · rw [StrState.Fits, if_pos hfull] at hfits
    cases hextend : extendScanbuffer realloc s.buffer yytext.length with
    | none =>
      rw [run_of_refused hfull hextend] at hnext
      cases hnext
    | some buffer =>
      rw [run_of_extended hfull hextend] at hnext
      obtain rfl := Option.some.inj hnext
      obtain ⟨hle, -⟩ := hfits (by simp [hextend])
      have hsize := extendScanbuffer_size hextend
      unfold grown at hsize
      rcases h.ptr_le with ⟨hptr, -⟩ | ⟨hptr, -⟩
      · rw [asInt_of_lt hptr (by omega)]
        refine ⟨by simp only; omega, .inl ⟨by simp only; omega, by simp only; omega⟩⟩
      · omega
  · rw [StrState.Fits, if_neg hfull] at hfits
    rw [run_of_room hfull] at hnext
    obtain rfl := Option.some.inj hnext
    refine ⟨hlow, ?_⟩
    rcases h.ptr_le with ⟨hptr, hle⟩ | ⟨hptr, hlost⟩
    · by_cases hwraps : 2 ^ 31 ≤ s.ptr + yytext.length
      · exact .inr ⟨hwraps, by simp only; omega⟩
      · rw [asInt_of_lt (by omega) (by omega)] at hfull
        exact .inl ⟨by simp only; omega, by simp only; omega⟩
    · omega

end Run

/-! ### A step and a run -/

/-- A rule stores inside exactly if the state fits it. -/
lemma strStep_inBounds_iff (h : s.Valid) (rule : StrRule) :
    (∀ store ∈ (strStep realloc s rule).1, store.InBounds) ↔ s.Fits realloc rule := by
  cases rule with
  | close =>
    have hlow := h.ptr_le
    have hhigh := h.size_lt
    simp only [strStep, List.forall_mem_singleton, Store.InBounds, StrState.Fits]
    push_cast
    omega
  | octal digits => exact character_inBounds_iff h _
  | escape c =>
    rw [strStep, character_inBounds_iff h, bne_iff_ne]
    rfl
  | newline =>
    rw [strStep, character_inBounds_iff h, StrState.Fits]
    simp
  | run yytext hlen => exact run_inBounds_iff h

lemma strStep_valid (h : s.Valid) {rule : StrRule} (hfits : s.Fits realloc rule) :
    ∀ next, (strStep realloc s rule).2 = some next → next.Valid := by
  cases rule with
  | close =>
    rintro next hnext
    cases hnext
  | octal digits => exact character_valid h hfits
  | escape c => exact character_valid h fun hc => hfits (bne_iff_ne.mp hc)
  | newline => exact character_valid h fun _ => hfits
  | run yytext hlen => exact run_valid h hfits

/-- Up to the first store that is outside, every state is valid. -/
lemma strRun_inBounds_iff (h : s.Valid) (rules : List StrRule) :
    (∀ e ∈ strRun realloc s rules, ∀ store ∈ (strStep realloc e.1 e.2).1, store.InBounds) ↔
      ∀ e ∈ strRun realloc s rules, e.1.Fits realloc e.2 := by
  induction rules generalizing s with
  | nil => simp [strRun]
  | cons rule rules ih =>
    rw [strRun, List.forall_mem_cons, List.forall_mem_cons, strStep_inBounds_iff h]
    refine and_congr_right fun hfits => ?_
    cases hnext : (strStep realloc s rule).2 with
    | none => simp
    | some next => exact ih (strStep_valid h hfits next hnext)

variable (realloc)

end Steps

/-! ### A full buffer -/

lemma strRules_escapes (n : Nat) (text : Text) :
    strRules ((List.replicate n [92, 110]).flatten ++ text) =
      List.replicate n (StrRule.escape 110) ++ strRules text := by
  induction n with
  | zero => rfl
  | succ n ih =>
    have hnone (t : Text) : octalDigits 3 (110 :: t) = ([], 110 :: t) := rfl
    have hescape (t : Text) : strRules (92 :: 110 :: t) = StrRule.escape 110 :: strRules t := by
      rw [strRules, if_neg (by decide), if_pos rfl]
      simp [hnone]
    rw [List.replicate_succ, List.flatten_cons, List.append_assoc, List.replicate_succ]
    exact (hescape _).trans (congrArg _ ih)

/-- Escapes fill the buffer up, and the closing quote comes behind them. -/
lemma mem_strRun_escapes (realloc : Nat → Bool) (n : Nat) {s : StrState} (hptr : 0 ≤ s.ptr)
    (hend : s.ptr + n = s.buffer.size) (hsize : s.buffer.size < 2 ^ 31) :
    (⟨s.buffer, s.buffer.size⟩, StrRule.close) ∈
      strRun realloc s (List.replicate n (StrRule.escape 110) ++ [.close]) := by
  induction n generalizing s with
  | zero =>
    have hs : s = ⟨s.buffer, s.buffer.size⟩ := by
      cases s
      simp_all
    rw [List.replicate_zero, List.nil_append, strRun, ← hs]
    exact List.mem_cons_self
  | succ n ih =>
    have hreserve : s.reserve realloc 0 1 = some s := by
      rw [StrState.reserve, asInt_asInt, Nat.cast_zero, add_zero, asInt_of_lt hptr (by omega), if_neg (by omega)]
    have hstep : (strStep realloc s (.escape 110)).2 = some { s with ptr := s.ptr + 1 } := by
      simp [strStep, StrState.character, hreserve, StrState.put]
    rw [List.replicate_succ, List.cons_append, strRun, hstep]
    refine List.mem_cons_of_mem _ (ih (s := { s with ptr := s.ptr + 1 }) ?_ ?_ hsize)
    · simp only
      omega
    · simp only
      omega

end YastCore.Transport
