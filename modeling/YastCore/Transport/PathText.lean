import YastCore.Transport.Scanner

/-!
# Paths built by appending

A path is built from the root by `append`: of strings, and of components of other paths, which in the end
come from path constants. Its text is read back by the constructor of `YCPPathRep`, whatever `isprint` says.
-/

namespace YastCore.Transport

/-! ### The segments of a path constant -/

/-- The text of a quoted segment after the opening quote, with the closing one. -/
inductive Quoted : Text → Prop where
  | close : Quoted [34]
  | escape (d : UInt8) (s : Text) : Quoted s → Quoted (92 :: d :: s)
  | char (c : UInt8) (s : Text) : c ≠ 92 → c ≠ 34 → Quoted s → Quoted (c :: s)

/-- A `\\x` without hex digits, or with zeros only: "not allowed in path constant", but the NUL is appended. -/
def nulEscape : Text → Bool
  | 92 :: d :: rest => (d == 120 && (takeHex rest).1 == 0) || nulEscape rest
  | _ :: rest => nulEscape rest
  | [] => false

lemma Quoted.of_escape {d : UInt8} {s : Text} (h : Quoted (92 :: d :: s)) : Quoted s := by
  cases h with
  | escape _ _ h => exact h
  | char _ _ h92 _ _ => exact absurd rfl h92

lemma Quoted.of_char {c : UInt8} {s : Text} (h92 : c ≠ 92) (h34 : c ≠ 34) (h : Quoted (c :: s)) : Quoted s := by
  cases h with
  | close => exact absurd rfl h34
  | escape _ _ _ => exact absurd rfl h92
  | char _ _ _ _ h => exact h

lemma Quoted.of_close {s : Text} (h : Quoted (34 :: s)) : s = [] := by
  cases h with
  | close => rfl
  | char _ _ _ h34 _ => exact absurd rfl h34

lemma nulEscape_char {c : UInt8} (h : c ≠ 92) (s : Text) : nulEscape (c :: s) = nulEscape s := by
  rw [nulEscape]
  intro d rest hc
  exact absurd hc h

lemma isxdigit_spec {c : UInt8} (h : isxdigit c = true) : c ≠ 92 ∧ c ≠ 34 ∧ xdigitValue c < 16 := by
  have hall : ∀ n : Fin 256, isxdigit (UInt8.ofNat n) = true → UInt8.ofNat n ≠ 92 ∧ UInt8.ofNat n ≠ 34 ∧
      xdigitValue (UInt8.ofNat n) < 16 := by
    decide +kernel
  have hc := hall ⟨c.toNat, c.toNat_lt⟩
  rw [UInt8.ofNat_toNat] at hc
  exact hc h

/-- The hex digits of an escape are plain characters of the segment. -/
lemma takeHex_quoted {s : Text} (h : Quoted s) :
    Quoted (takeHex s).2 ∧ nulEscape (takeHex s).2 = nulEscape s ∧ (takeHex s).1 < 256 := by
  cases s with
  | nil => exact ⟨h, rfl, by decide⟩
  | cons a rest =>
    rw [takeHex.eq_def]
    dsimp only
    cases ha : isxdigit a with
    | false =>
      rw [if_neg Bool.false_ne_true]
      exact ⟨h, rfl, by omega⟩
    | true =>
      obtain ⟨ha92, ha34, halt⟩ := isxdigit_spec ha
      have hrest := h.of_char ha92 ha34
      rw [if_pos rfl, nulEscape_char ha92]
      cases rest with
      | nil => exact ⟨hrest, rfl, by dsimp only; omega⟩
      | cons b rest' =>
        dsimp only
        cases hb : isxdigit b with
        | false =>
          rw [if_neg Bool.false_ne_true]
          exact ⟨hrest, rfl, by dsimp only; omega⟩
        | true =>
          obtain ⟨hb92, hb34, hblt⟩ := isxdigit_spec hb
          rw [if_pos rfl]
          exact ⟨hrest.of_char hb92 hb34, (nulEscape_char hb92 rest').symm, by dsimp only; omega⟩

lemma takeHex_suffix (s : Text) : (takeHex s).2 <:+ s := by
  cases s with
  | nil => exact List.suffix_rfl
  | cons a rest =>
    rw [takeHex.eq_def]
    dsimp only
    split
    · cases rest with
      | nil => exact List.suffix_cons a []
      | cons b rest' =>
        dsimp only
        split
        · exact (List.suffix_cons b rest').trans (List.suffix_cons a _)
        · exact List.suffix_cons a _
    · exact List.suffix_rfl

lemma unescapeChar_ne_zero {d : UInt8} (h : d ≠ 0) : unescapeChar d ≠ 0 := by
  unfold unescapeChar
  split
  · decide
  split
  · decide
  split
  · decide
  split
  · decide
  split
  · decide
  · exact h

/-- A quoted segment stands for a text with a NUL exactly when one of its escapes does. -/
lemma zero_mem_unescapePath_iff (comp : Text) {s : Text} (h : Quoted s) (hs : 0 ∉ s) :
    0 ∈ unescapePath comp s ↔ 0 ∈ comp ∨ nulEscape s = true := by
  induction comp, s using unescapePath.induct with
  | case1 comp => cases h
  | case2 comp => cases h with
    | char _ _ h92 _ _ => exact absurd rfl h92
  | case3 comp rest' ih =>
    obtain ⟨hquoted, hnul, hlt⟩ := takeHex_quoted h.of_escape
    have hrest : 0 ∉ rest' := fun h0 => hs (List.mem_cons_of_mem _ (List.mem_cons_of_mem _ h0))
    have hsuffix : 0 ∉ (takeHex rest').2 := fun h0 => hrest ((takeHex_suffix rest').subset h0)
    have hbyte : (0 : UInt8) = UInt8.ofNat (takeHex rest').1 ↔ (takeHex rest').1 = 0 := by
      constructor
      · intro h0
        have hnat := congrArg UInt8.toNat h0
        rw [UInt8.toNat_ofNat_of_lt' hlt] at hnat
        exact hnat.symm
      · intro h0
        rw [h0]
        rfl
    rw [unescapePath.eq_def]
    simp only [if_true, ih hquoted hsuffix, List.mem_append, List.mem_singleton, hbyte, hnul, nulEscape]
    simp [or_assoc]
  | case4 comp d rest' hd ih =>
    rw [List.mem_cons, List.mem_cons, not_or, not_or] at hs
    rw [unescapePath_escape comp rest' hd, ih h.of_escape hs.2.2, List.mem_append, List.mem_singleton,
      nulEscape]
    have hne : (0 : UInt8) ≠ unescapeChar d := (unescapeChar_ne_zero (Ne.symm hs.2.1)).symm
    simp [hne, hd]
  | case5 comp rest h92 =>
    have hnil := h.of_close
    rw [hnil, unescapePath.eq_def]
    simp [nulEscape]
  | case6 comp c rest h92 h34 ih =>
    rw [List.mem_cons, not_or] at hs
    rw [unescapePath_plain comp rest h92 h34, ih (h.of_char h92 h34) hs.2, List.mem_append,
      List.mem_singleton, nulEscape_char h92]
    simp [hs.1]

/-! ### The components of a path constant -/

/-- A component of a path constant is quoted or a plain text, without a NUL in either text. -/
def FromConstant (c : PathComponent) : Prop :=
  (∃ s, Quoted s ∧ 0 ∉ s ∧ c = PathComponent.ofQuoted (34 :: s)) ∨ ∃ s, 0 ∉ s ∧ c = PathComponent.ofSimple s

/-- What the constructor has taken so far of a quoted segment: its text goes on with any rest of one. -/
def Begun (acc : Text) : Prop := ∃ a, acc = 34 :: a ∧ ∀ s, Quoted s → Quoted (a ++ s)

/-- The state of the constructor's loop and the text it has taken since `start`. -/
def StateOk : PathState → Text → Text → Prop
  | .dot, _, _ => True
  | .simple, acc, _ => 0 ∉ acc
  | .complexFirst, acc, t => acc = [] ∧ t.head? = some 34
  | .complex, acc, _ => 0 ∉ acc ∧ Begun acc

lemma fromConstant_parsePathLoop (state : PathState) (acc t : Text) (comps : List PathComponent)
    (ht : 0 ∉ t) (hstate : StateOk state acc t) (hcomps : ∀ c ∈ comps, FromConstant c)
    {path : List PathComponent} (h : parsePathLoop state acc t comps = some path) :
    ∀ c ∈ path, FromConstant c := by
  induction state, acc, t, comps using parsePathLoop.induct with
  | case1 state acc comps =>
    rw [parsePathLoop] at h
    cases h
    exact hcomps
  | case2 acc c rest comps ih =>
    have hrest : 0 ∉ rest := fun h0 => ht (List.mem_cons_of_mem _ h0)
    rw [parsePathLoop] at h
    refine ih hrest ?_ hcomps h
    by_cases hquote : rest.head? = some 34
    · rw [if_pos hquote]
      exact ⟨rfl, hquote⟩
    · rw [if_neg hquote]
      exact List.not_mem_nil
  | case3 acc c rest comps hend hdash =>
    rw [parsePathLoop, if_pos hend, if_pos hdash] at h
    cases h
    simp
  | case4 acc c rest comps hend hdash ih =>
    rw [parsePathLoop, if_pos hend, if_neg hdash] at h
    obtain ⟨hc, hrest⟩ := not_or.mp (fun h0 => ht (List.mem_cons.mpr h0))
    have hacc : 0 ∉ acc ++ [c] := by
      rw [List.mem_append, not_or]
      exact ⟨hstate, by simpa using hc⟩
    refine ih hrest trivial ?_ h
    rw [List.forall_mem_append, List.forall_mem_singleton]
    exact ⟨hcomps, Or.inr ⟨acc ++ [c], hacc, rfl⟩⟩
  | case5 acc c rest comps hend ih =>
    rw [parsePathLoop, if_neg hend] at h
    obtain ⟨hc, hrest⟩ := not_or.mp (fun h0 => ht (List.mem_cons.mpr h0))
    have hacc : 0 ∉ acc ++ [c] := by
      rw [List.mem_append, not_or]
      exact ⟨hstate, by simpa using hc⟩
    exact ih hrest hacc hcomps h
  | case6 acc c rest comps ih =>
    rw [parsePathLoop] at h
    obtain ⟨hc, hrest⟩ := not_or.mp (fun h0 => ht (List.mem_cons.mpr h0))
    obtain ⟨rfl, hquote⟩ := hstate
    have hc34 : c = 34 := Option.some.inj hquote
    exact ih hrest ⟨by simp [hc], ⟨[], by rw [hc34]; rfl, fun s hs => hs⟩⟩ hcomps h
  | case7 acc comps =>
    rw [parsePathLoop] at h
    cases h
  | case8 acc d rest comps ih =>
    rw [parsePathLoop] at h
    rw [List.mem_cons, List.mem_cons, not_or, not_or] at ht
    obtain ⟨hacc, a, rfl, hbegun⟩ := hstate
    refine ih ht.2.2 ⟨by simpa [ht.2.1] using hacc, a ++ [92, d], rfl, ?_⟩ hcomps h
    intro s hs
    rw [List.append_assoc]
    exact hbegun _ (Quoted.escape d s hs)
  | case9 acc rest comps hne hne' ih =>
    rw [parsePathLoop, if_pos rfl] at h
    · obtain ⟨-, hrest⟩ := not_or.mp (fun h0 => ht (List.mem_cons.mpr h0))
      obtain ⟨hacc, a, rfl, hbegun⟩ := hstate
      refine ih hrest trivial ?_ h
      rw [List.forall_mem_append, List.forall_mem_singleton]
      refine ⟨hcomps, Or.inl ⟨a ++ [34], hbegun [34] Quoted.close, ?_, rfl⟩⟩
      simpa using hacc
    · exact hne
    · exact hne'
  | case10 acc c rest comps hne hne' h34 ih =>
    rw [parsePathLoop, if_neg h34] at h
    · obtain ⟨hc, hrest⟩ := not_or.mp (fun h0 => ht (List.mem_cons.mpr h0))
      obtain ⟨hacc, a, rfl, hbegun⟩ := hstate
      have h92 : c ≠ 92 := by
        rintro rfl
        cases rest with
        | nil => exact hne rfl rfl
        | cons d rest => exact hne' d rest rfl rfl
      refine ih hrest ⟨by simpa [hc] using hacc, a ++ [c], rfl, ?_⟩ hcomps h
      intro s hs
      rw [List.append_assoc]
      exact hbegun _ (Quoted.char c s h92 h34 hs)
    · exact hne
    · exact hne'

/-- The components of a path that the scanner accepts come from their texts in the constant. -/
lemma fromConstant_scanPath {t rest : Text} {path : List PathComponent}
    (h : scanPath t = some (.path path, rest)) : ∀ c ∈ path, FromConstant c := by
  rw [scanPath] at h
  dsimp only at h
  split at h
  · cases h
    simp
  split at h
  · cases h
  split at h
  · cases h
  next path' hparse =>
    split at h
    · cases h
    · obtain ⟨hpath, -⟩ := Prod.mk.inj (Option.some.inj h)
      cases hpath
      rw [parsePath] at hparse
      split at hparse
      · cases hparse
        simp
      · exact fromConstant_parsePathLoop .dot [] _ [] (zero_not_mem_cut _) trivial (by simp) hparse

/-- No escape in the text of the component stands for NUL. -/
def NoNulEscape (c : PathComponent) : Prop :=
  ∀ s, Quoted s → 0 ∉ s → c = PathComponent.ofQuoted (34 :: s) → nulEscape s = false

lemma zero_not_mem_component_iff {c : PathComponent} (h : FromConstant c) :
    0 ∉ c.component ↔ NoNulEscape c := by
  have hofQuoted : ∀ s, Quoted s → 0 ∉ s →
      (0 ∉ (PathComponent.ofQuoted (34 :: s)).component ↔ nulEscape s = false) := by
    intro s hs h0
    have hnil : (0 : UInt8) ∉ ([] : Text) := List.not_mem_nil
    have hiff : 0 ∈ unescapePath [] s ↔ nulEscape s = true := by
      rw [zero_mem_unescapePath_iff [] hs h0, or_iff_right hnil]
    have hcomponent : (PathComponent.ofQuoted (34 :: s)).component = unescapePath [] s := rfl
    rw [hcomponent, hiff, Bool.not_eq_true]
  constructor
  · rintro hc s hs h0 rfl
    exact (hofQuoted s hs h0).mp hc
  · intro hno
    obtain ⟨s, hs, h0, rfl⟩ | ⟨s, h0, rfl⟩ := h
    · exact (hofQuoted s hs h0).mpr (hno s hs h0 rfl)
    · rw [PathComponent.ofSimple]
      split <;> exact h0

/-! ### Appending -/

/-- An `append` to a path: of a string, or of a component of a path that the scanner accepts. -/
inductive PathAppend where
  | string (c : Text) (nul_free : 0 ∉ c)
  | component (c : PathComponent) (t rest : Text) (path : List PathComponent)
      (accepted : scanPath t = some (.path path, rest)) (mem : c ∈ path)

namespace PathAppend

def append (components : List PathComponent) : PathAppend → List PathComponent
  | string c _ => components ++ [⟨c, true, PathComponent.text_of_complex c⟩]
  | component c _ _ _ _ _ => components ++ [c]

/-- The component is one whose text in the constant has no escape for NUL. -/
def NoNul : PathAppend → Prop
  | string _ _ => True
  | component c _ _ _ _ _ => NoNulEscape c

/-- The path that is built from the root. -/
def build (appends : List PathAppend) : List PathComponent := appends.foldl append []

lemma append_spec (components : List PathComponent) (a : PathAppend) :
    ∃ c, append components a = components ++ [c] ∧ (c.carried = c ↔ a.NoNul) := by
  cases a with
  | string c nul_free =>
    refine ⟨⟨c, true, by simp⟩, rfl, ?_⟩
    rw [PathComponent.carried_eq_self]
    exact iff_true_intro nul_free
  | component c t rest path accepted mem =>
    refine ⟨c, rfl, ?_⟩
    rw [PathComponent.carried_eq_self]
    exact zero_not_mem_component_iff (fromConstant_scanPath accepted c mem)

lemma map_carried_foldl (appends : List PathAppend) (components : List PathComponent) :
    (appends.foldl append components).map PathComponent.carried = appends.foldl append components ↔
      components.map PathComponent.carried = components ∧ ∀ a ∈ appends, a.NoNul := by
  induction appends generalizing components with
  | nil => simp
  | cons a appends ih =>
    obtain ⟨c, hc, hcarried⟩ := append_spec components a
    have hlast : (components ++ [c]).map PathComponent.carried = components ++ [c] ↔
        components.map PathComponent.carried = components ∧ a.NoNul := by
      rw [List.map_append, List.map_singleton, ← hcarried]
      constructor
      · intro h
        obtain ⟨hleft, hright⟩ := List.append_inj' h rfl
        exact ⟨hleft, List.singleton_inj.mp hright⟩
      · rintro ⟨hleft, hright⟩
        rw [hleft, hright]
    rw [List.foldl_cons, ih, hc, hlast, List.forall_mem_cons, and_assoc]

/-- A path built by appending is read back from its text exactly when no component of a constant in it has
an escape for NUL, whatever is printed as it is. -/
theorem parsePath_build_iff (isprint : UInt8 → Bool) (appends : List PathAppend) :
    parsePath (pathToText isprint (build appends)) = some (build appends) ↔ ∀ a ∈ appends, a.NoNul := by
  rw [parsePath_pathToText, Option.some.injEq, build, map_carried_foldl]
  simp

/-- The component of the constant `."\\x00"`, which the scanner accepts. -/
def nulComponent : PathAppend :=
  .component (PathComponent.ofQuoted [34, 92, 120, 48, 48, 34]) [34, 92, 120, 48, 48, 34] []
    [PathComponent.ofQuoted [34, 92, 120, 48, 48, 34]] rfl (List.mem_singleton_self _)

/-- Its text ends at the NUL. -/
theorem parsePath_build_nul :
    ¬ ∀ isprint appends, parsePath (pathToText isprint (build appends)) = some (build appends) := by
  intro h
  have hnul := h (fun _ => true) [nulComponent]
  rw [parsePath_pathToText, Option.some.injEq] at hnul
  have hcarried := PathComponent.carried_eq_self.mp (List.singleton_inj.mp hnul)
  have hquoted : Quoted [92, 120, 48, 48, 34] :=
    .escape 120 [48, 48, 34] (.char 48 [48, 34] (by decide) (by decide)
      (.char 48 [34] (by decide) (by decide) .close))
  exact hcarried ((zero_mem_unescapePath_iff [] hquoted (by decide)).mpr (Or.inr rfl))

end PathAppend

end YastCore.Transport
