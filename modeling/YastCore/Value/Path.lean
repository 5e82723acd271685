import Mathlib.Data.List.TakeWhile
import YastCore.Value.Basic

/-!
# The text of paths

`YCPPathRep::toString` and the constructor of `YCPPathRep` from a C string. `isprint` depends on the
locale, so it is a parameter.
-/

namespace YastCore

/-- What `c_str()` shows of a string: the text up to the first NUL. -/
def cut (t : Text) : Text := t.takeWhile (· != 0)

/-- The digit of `"%X"`. -/
def hexDigit (n : Nat) : UInt8 :=
  if n < 10 then UInt8.ofNat (48 + n) else UInt8.ofNat (55 + n)

/-- One character of a quoted component. -/
def escapePathChar (isprint : UInt8 → Bool) (c : UInt8) : Text :=
  if c = 34 then [92, 34]
  else if c = 92 then [92, 92]
  else if c = 10 then [92, 110]
  else if c = 9 then [92, 116]
  else if c = 13 then [92, 114]
  else if c = 8 then [92, 98]
  else if c = 12 then [92, 102]
  else if isprint c then [c]
  else [92, 120, hexDigit (c.toNat / 16), hexDigit (c.toNat % 16)]

namespace PathComponent

/-- `YCPPathRep::Component::toString`. -/
def toText (isprint : UInt8 → Bool) (c : PathComponent) : Text :=
  if c.complex then 34 :: ((cut c.component).flatMap (escapePathChar isprint) ++ [34])
  else c.component

/-- A component given without quotes. The constructor of the path has ruled out a dash at either
end, so what is left to decide is whether all characters are simple ones. -/
def ofSimple (s : Text) : PathComponent :=
  if h : simpleComponent s = true then ⟨s, false, fun _ => h⟩ else ⟨s, true, by simp⟩

end PathComponent

def isxdigit (c : UInt8) : Bool :=
  (48 ≤ c && c ≤ 57) || (65 ≤ c && c ≤ 70) || (97 ≤ c && c ≤ 102)

def xdigitValue (c : UInt8) : Nat :=
  if 48 ≤ c && c ≤ 57 then c.toNat - 48
  else if 65 ≤ c && c ≤ 90 then c.toNat - 65 + 10
  else c.toNat - 97 + 10

/-- The character that an escape other than `\\x` stands for. -/
def unescapeChar (c : UInt8) : UInt8 :=
  if c = 110 then 10
  else if c = 116 then 9
  else if c = 114 then 13
  else if c = 98 then 8
  else if c = 102 then 12
  else c

/-- The number of up to two hex digits after `\\x`, and what follows them. -/
def takeHex : Text → Nat × Text
  | [] => (0, [])
  | a :: rest =>
    if isxdigit a then
      match rest with
      | [] => (xdigitValue a, [])
      | b :: rest' =>
        if isxdigit b then (xdigitValue a * 16 + xdigitValue b, rest') else (xdigitValue a, b :: rest')
    else
      (0, a :: rest)

lemma length_takeHex_le (t : Text) : (takeHex t).2.length ≤ t.length := by
  cases t with
  | nil => simp [takeHex]
  | cons a rest =>
    simp only [takeHex]
    split
    · split
      · simp
      · split <;> simp <;> omega
    · simp

/-- The loop of `YCPPathRep::Component::Component(string)` over the text after the opening quote;
a backslash at the very end leaves the component empty. -/
def unescapePath (comp : Text) : Text → Text
  | [] => comp
  | c :: rest =>
    if c = 92 then
      match rest with
      | [] => []
      | d :: rest' =>
        if d = 120 then
          unescapePath (comp ++ [UInt8.ofNat (takeHex rest').1]) (takeHex rest').2
        else
          unescapePath (comp ++ [unescapeChar d]) rest'
    else if c = 34 then comp
    else unescapePath (comp ++ [c]) rest
termination_by t => t.length
decreasing_by
  · have := length_takeHex_le rest'
    simp only [List.length_cons]
    omega
  · simp only [List.length_cons]
    omega
  · simp only [List.length_cons]
    omega

def PathComponent.ofQuoted (s : Text) : PathComponent := ⟨unescapePath [] (s.drop 1), true, by simp⟩

inductive PathState where
  | dot
  | simple
  | complexFirst
  | complex

/-- The loop of the constructor: `acc` is the text from `start` on, and the head of the third
argument is `*c`. `none` is a read past the terminating NUL. -/
def parsePathLoop : PathState → Text → Text → List PathComponent → Option (List PathComponent)
  | _, _, [], comps => some comps
  | .dot, _, _ :: rest, comps =>
    parsePathLoop (if rest.head? = some 34 then .complexFirst else .simple) [] rest comps
  | .simple, acc, c :: rest, comps =>
    if rest.head? = some 46 ∨ rest = [] then
      if (acc ++ [c]).head? = some 45 ∨ c = 45 then some []
      else parsePathLoop .dot [] rest (comps ++ [PathComponent.ofSimple (acc ++ [c])])
    else parsePathLoop .simple (acc ++ [c]) rest comps
  | .complexFirst, acc, c :: rest, comps => parsePathLoop .complex (acc ++ [c]) rest comps
  | .complex, _, [92], _ => none
  | .complex, acc, 92 :: d :: rest, comps => parsePathLoop .complex (acc ++ [92, d]) rest comps
  | .complex, acc, c :: rest, comps =>
    if c = 34 then parsePathLoop .dot [] rest (comps ++ [PathComponent.ofQuoted (acc ++ [c])])
    else parsePathLoop .complex (acc ++ [c]) rest comps

/-- `YCPPathRep::YCPPathRep(const char *)`. -/
def parsePath (r : Text) : Option (List PathComponent) :=
  if r = [46] then some [] else parsePathLoop .dot [] r []

/-- `YCPPathRep::toString`. -/
def pathToText (isprint : UInt8 → Bool) (p : List PathComponent) : Text :=
  if p = [] then [46] else p.flatMap fun c => 46 :: c.toText isprint

/-! ### Reading back the text of a path -/

/-- What the text of a component keeps of it. -/
def PathComponent.carried (c : PathComponent) : PathComponent :=
  if c.complex then ⟨cut c.component, true, by simp⟩ else c

lemma hexDigit_spec : ∀ n < 16, isxdigit (hexDigit n) = true ∧ xdigitValue (hexDigit n) = n ∧
    hexDigit n ≠ 92 ∧ hexDigit n ≠ 34 := by
  decide

lemma unescapePath_plain (comp rest : Text) {c : UInt8} (h : c ≠ 92) (h' : c ≠ 34) :
    unescapePath comp (c :: rest) = unescapePath (comp ++ [c]) rest := by
  rw [unescapePath.eq_def]
  simp only [if_neg h, if_neg h']

lemma unescapePath_escape (comp rest : Text) {c : UInt8} (h : c ≠ 120) :
    unescapePath comp (92 :: c :: rest) = unescapePath (comp ++ [unescapeChar c]) rest := by
  rw [unescapePath.eq_def]
  simp only [if_true, if_neg h]

lemma unescapePath_hex (comp rest : Text) (c : UInt8) :
    unescapePath comp (92 :: 120 :: hexDigit (c.toNat / 16) :: hexDigit (c.toNat % 16) :: rest) =
      unescapePath (comp ++ [c]) rest := by
  have hc := c.toNat_lt
  obtain ⟨ha, ha', -⟩ := hexDigit_spec (c.toNat / 16) (by omega)
  obtain ⟨hb, hb', -⟩ := hexDigit_spec (c.toNat % 16) (by omega)
  have hnum : c.toNat / 16 * 16 + c.toNat % 16 = c.toNat := by omega
  have htake : takeHex (hexDigit (c.toNat / 16) :: hexDigit (c.toNat % 16) :: rest) =
      (c.toNat, rest) := by
    rw [takeHex, if_pos ha]
    simp only [hb, if_true, ha', hb', hnum]
  rw [unescapePath.eq_def]
  simp only [if_true, htake, UInt8.ofNat_toNat]

/-- The three forms in which a character is written. -/
lemma escapePathChar_cases (isprint : UInt8 → Bool) (c : UInt8) :
    (∃ d, d ≠ 120 ∧ unescapeChar d = c ∧ escapePathChar isprint c = [92, d]) ∨
    (c ≠ 92 ∧ c ≠ 34 ∧ escapePathChar isprint c = [c]) ∨
    escapePathChar isprint c = [92, 120, hexDigit (c.toNat / 16), hexDigit (c.toNat % 16)] := by
  unfold escapePathChar
  by_cases h34 : c = 34
  · exact .inl ⟨34, by decide, h34.symm, if_pos h34⟩
  by_cases h92 : c = 92
  · exact .inl ⟨92, by decide, h92.symm, by rw [if_neg h34, if_pos h92]⟩
  rw [if_neg h34, if_neg h92]
  by_cases h10 : c = 10
  · exact .inl ⟨110, by decide, h10.symm, by rw [if_pos h10]⟩
  by_cases h9 : c = 9
  · exact .inl ⟨116, by decide, h9.symm, by rw [if_neg h10, if_pos h9]⟩
  rw [if_neg h10, if_neg h9]
  by_cases h13 : c = 13
  · exact .inl ⟨114, by decide, h13.symm, by rw [if_pos h13]⟩
  by_cases h8 : c = 8
  · exact .inl ⟨98, by decide, h8.symm, by rw [if_neg h13, if_pos h8]⟩
  rw [if_neg h13, if_neg h8]
  by_cases h12 : c = 12
  · exact .inl ⟨102, by decide, h12.symm, by rw [if_pos h12]⟩
  rw [if_neg h12]
  by_cases hp : isprint c = true
  · exact .inr (.inl ⟨h92, h34, if_pos hp⟩)
  · exact .inr (.inr (if_neg hp))

lemma unescapePath_flatMap (isprint : UInt8 → Bool) (comp t : Text) :
    unescapePath comp (t.flatMap (escapePathChar isprint) ++ [34]) = comp ++ t := by
  induction t generalizing comp with
  | nil =>
    rw [List.flatMap_nil, List.nil_append, List.append_nil, unescapePath.eq_def]
    rfl
  | cons c t ih =>
    have hchar (rest : Text) :
        unescapePath comp (escapePathChar isprint c ++ rest) = unescapePath (comp ++ [c]) rest := by
      rcases escapePathChar_cases isprint c with ⟨d, hd, hdc, h⟩ | ⟨h92, h34, h⟩ | h
      · rw [h, ← hdc]
        exact unescapePath_escape comp rest hd
      · rw [h]
        exact unescapePath_plain comp rest h92 h34
      · rw [h]
        exact unescapePath_hex comp rest c
    rw [List.flatMap_cons, List.append_assoc, hchar, ih, List.append_assoc, List.singleton_append]

lemma parsePathLoop_escape (acc rest : Text) (d : UInt8) (comps : List PathComponent) :
    parsePathLoop .complex acc (92 :: d :: rest) comps =
      parsePathLoop .complex (acc ++ [92, d]) rest comps := by
  rw [parsePathLoop]

lemma parsePathLoop_plain (acc rest : Text) {c : UInt8} (comps : List PathComponent)
    (h : c ≠ 92) (h' : c ≠ 34) :
    parsePathLoop .complex acc (c :: rest) comps =
      parsePathLoop .complex (acc ++ [c]) rest comps := by
  rw [parsePathLoop, if_neg h']
  all_goals
    intros
    contradiction

lemma parsePathLoop_escapePathChar (isprint : UInt8 → Bool) (acc rest : Text) (c : UInt8)
    (comps : List PathComponent) :
    parsePathLoop .complex acc (escapePathChar isprint c ++ rest) comps =
      parsePathLoop .complex (acc ++ escapePathChar isprint c) rest comps := by
  rcases escapePathChar_cases isprint c with ⟨d, -, -, h⟩ | ⟨h92, h34, h⟩ | h
  · rw [h]
    exact parsePathLoop_escape acc rest d comps
  · rw [h]
    exact parsePathLoop_plain acc rest comps h92 h34
  · have hc := c.toNat_lt
    obtain ⟨-, -, ha92, ha34⟩ := hexDigit_spec (c.toNat / 16) (by omega)
    obtain ⟨-, -, hb92, hb34⟩ := hexDigit_spec (c.toNat % 16) (by omega)
    rw [h]
    simp only [List.cons_append, List.nil_append]
    rw [parsePathLoop_escape, parsePathLoop_plain _ _ _ ha92 ha34,
      parsePathLoop_plain _ _ _ hb92 hb34]
    simp

/-- A quoted component is taken up to its closing quote. -/
lemma parsePathLoop_quoted (isprint : UInt8 → Bool) (acc t rest : Text)
    (comps : List PathComponent) :
    parsePathLoop .complex acc (t.flatMap (escapePathChar isprint) ++ 34 :: rest) comps =
      parsePathLoop .dot [] rest (comps ++
        [PathComponent.ofQuoted (acc ++ (t.flatMap (escapePathChar isprint) ++ [34]))]) := by
  induction t generalizing acc with
  | nil =>
    rw [List.flatMap_nil, List.nil_append, List.nil_append, parsePathLoop]
    · simp
    · simp
    · simp
  | cons c t ih =>
    rw [List.flatMap_cons, List.append_assoc, parsePathLoop_escapePathChar, ih]
    simp

/-- A component without quotes is taken up to the next dot. -/
lemma parsePathLoop_simple (acc t rest : Text) (comps : List PathComponent) (ht : t ≠ [])
    (hdot : ∀ c ∈ t, c ≠ 46) (hrest : rest.head? = some 46 ∨ rest = [])
    (hfirst : (acc ++ t).head? ≠ some 45) (hlast : t.getLast? ≠ some 45) :
    parsePathLoop .simple acc (t ++ rest) comps =
      parsePathLoop .dot [] rest (comps ++ [PathComponent.ofSimple (acc ++ t)]) := by
  induction t generalizing acc with
  | nil => exact absurd rfl ht
  | cons c t ih =>
    cases t with
    | nil =>
      rw [List.singleton_append, parsePathLoop, if_pos hrest, if_neg]
      rintro (h | h)
      · exact hfirst h
      · exact hlast (by rw [h]; rfl)
    | cons d t =>
      have hd : d ≠ 46 := hdot d (by simp)
      rw [List.cons_append, parsePathLoop, if_neg (by simp [hd]), ih]
      · simp
      · simp
      · exact fun c hc => hdot c (List.mem_cons_of_mem _ hc)
      · simpa using hfirst
      · simpa using hlast

lemma simpleComponent_spec {t : Text} (h : simpleComponent t = true) :
    t ≠ [] ∧ (∀ c ∈ t, isSimplePathChar c = true) ∧ t.head? ≠ some 45 ∧ t.getLast? ≠ some 45 := by
  simpa [simpleComponent, and_assoc] using h

lemma isSimplePathChar_spec : ∀ c : UInt8, isSimplePathChar c = true → c ≠ 46 ∧ c ≠ 34 ∧ c ≠ 0 := by
  intro c h
  refine ⟨?_, ?_, ?_⟩ <;> rintro rfl <;> simp [isSimplePathChar] at h

lemma ofQuoted_toText (isprint : UInt8 → Bool) (t : Text) :
    PathComponent.ofQuoted (34 :: (t.flatMap (escapePathChar isprint) ++ [34])) =
      ⟨t, true, by simp⟩ := by
  unfold PathComponent.ofQuoted
  congr 1
  rw [List.drop_one, List.tail_cons, unescapePath_flatMap, List.nil_append]

/-- One component is read back as what its text keeps of it. -/
lemma parsePathLoop_toText (isprint : UInt8 → Bool) (c : PathComponent) (rest : Text)
    (comps : List PathComponent) (hrest : rest.head? = some 46 ∨ rest = []) :
    parsePathLoop .dot [] (46 :: (c.toText isprint ++ rest)) comps =
      parsePathLoop .dot [] rest (comps ++ [c.carried]) := by
  rw [parsePathLoop]
  cases hc : c.complex with
  | true =>
    simp only [PathComponent.toText, PathComponent.carried, hc, if_true, List.cons_append,
      List.head?_cons]
    rw [parsePathLoop, List.append_assoc, List.singleton_append, List.nil_append,
      parsePathLoop_quoted, List.singleton_append, ofQuoted_toText]
  | false =>
    have hsimple := c.simple_text hc
    obtain ⟨hne, hchars, hfirst, hlast⟩ := simpleComponent_spec hsimple
    have hquote : (c.component ++ rest).head? ≠ some 34 := by
      intro h
      rw [List.head?_append_of_ne_nil _ hne] at h
      exact (isSimplePathChar_spec 34 (hchars 34 (List.mem_of_mem_head? h))).2.1 rfl
    simp only [PathComponent.toText, PathComponent.carried, hc, Bool.false_eq_true, if_false]
    rw [if_neg hquote, parsePathLoop_simple [] _ _ _ hne
      (fun c hc => (isSimplePathChar_spec c (hchars c hc)).1) hrest hfirst hlast, List.nil_append]
    have hofSimple : PathComponent.ofSimple c.component = c := by
      rw [PathComponent.ofSimple, dif_pos hsimple]
      cases c
      simp_all
    rw [hofSimple]

lemma cut_eq_self {t : Text} : cut t = t ↔ 0 ∉ t := by
  rw [cut, List.takeWhile_eq_self_iff]
  simp only [bne_iff_ne, ne_eq]
  exact ⟨fun h h0 => h 0 h0 rfl, fun h c hc hc0 => h (hc0 ▸ hc)⟩

lemma zero_not_mem_cut (t : Text) : 0 ∉ cut t := by
  intro h
  have h0 := List.mem_takeWhile_imp h
  simp at h0

lemma cut_cut (t : Text) : cut (cut t) = cut t :=
  cut_eq_self.mpr (zero_not_mem_cut t)

lemma cut_length_le (t : Text) : (cut t).length ≤ t.length := (List.takeWhile_prefix _).length_le

/-- A C string is the whole array exactly when there is no NUL in it. -/
lemma cut_length_eq_iff (t : Text) : (cut t).length = t.length ↔ 0 ∉ t := by
  rw [← cut_eq_self]
  exact ⟨(List.takeWhile_prefix _).eq_of_length, congrArg List.length⟩

lemma zero_not_mem_escapePathChar (isprint : UInt8 → Bool) {c : UInt8} (hc : c ≠ 0) :
    0 ∉ escapePathChar isprint c := by
  rcases escapePathChar_cases isprint c with ⟨d, -, hd, h⟩ | ⟨-, -, h⟩ | h
  · have hd0 : d ≠ 0 := by
      rintro rfl
      exact hc hd.symm
    simp [h, hd0.symm]
  · simp [h, hc.symm]
  · have hlt := c.toNat_lt
    have hne : ∀ n < 16, hexDigit n ≠ 0 := by decide
    simp [h, (hne (c.toNat / 16) (by omega)).symm, (hne (c.toNat % 16) (by omega)).symm]

/-- The text of a path is a C string. -/
lemma zero_not_mem_pathToText (isprint : UInt8 → Bool) (p : List PathComponent) :
    0 ∉ pathToText isprint p := by
  unfold pathToText
  split
  · decide
  · rw [List.mem_flatMap]
    rintro ⟨c, -, h⟩
    rcases List.mem_cons.mp h with h | h
    · exact absurd h (by decide)
    · unfold PathComponent.toText at h
      split at h
      · simp only [List.mem_cons, List.mem_append, List.mem_flatMap, List.not_mem_nil,
          or_false] at h
        rcases h with h | ⟨d, hd, h⟩ | h
        · exact absurd h (by decide)
        · refine zero_not_mem_escapePathChar isprint ?_ h
          rintro rfl
          exact zero_not_mem_cut _ hd
        · exact absurd h (by decide)
      next hc =>
        have hchars := (simpleComponent_spec (c.simple_text (by simpa using hc))).2.1
        exact (isSimplePathChar_spec 0 (hchars 0 h)).2.2 rfl

lemma PathComponent.carried_eq_self {c : PathComponent} : c.carried = c ↔ 0 ∉ c.component := by
  unfold PathComponent.carried
  cases hc : c.complex with
  | true =>
    rw [if_pos rfl, ← cut_eq_self]
    cases c
    simp_all
  | false =>
    have hchars := (simpleComponent_spec (c.simple_text hc)).2.1
    simp only [Bool.false_eq_true, if_false, true_iff]
    exact fun h => (isSimplePathChar_spec 0 (hchars 0 h)).2.2 rfl

/-- The constructor applied to the text of a path gives back what the text keeps of it. -/
theorem parsePath_pathToText (isprint : UInt8 → Bool) (p : List PathComponent) :
    parsePath (pathToText isprint p) = some (p.map PathComponent.carried) := by
  have hloop : ∀ (p comps : List PathComponent),
      parsePathLoop .dot [] (p.flatMap fun c => 46 :: c.toText isprint) comps =
        some (comps ++ p.map PathComponent.carried) := by
    intro p
    induction p with
    | nil =>
      intro comps
      simp [parsePathLoop]
    | cons c p ih =>
      intro comps
      have hrest : (p.flatMap fun c => 46 :: c.toText isprint).head? = some 46 ∨
          (p.flatMap fun c => 46 :: c.toText isprint) = [] := by
        cases p <;> simp
      rw [List.flatMap_cons, List.cons_append, parsePathLoop_toText isprint c _ comps hrest, ih]
      simp
  unfold parsePath pathToText
  cases p with
  | nil => rfl
  | cons c p =>
    have hne : c.toText isprint ≠ [] := by
      cases hc : c.complex with
      | true => simp [PathComponent.toText, hc]
      | false =>
        simp only [PathComponent.toText, hc, Bool.false_eq_true, if_false]
        exact (simpleComponent_spec (c.simple_text hc)).1
    rw [if_neg (by simp : c :: p ≠ []), if_neg, hloop, List.nil_append]
    simp [hne]

end YastCore
