import YastCore.Builtin.Add
import YastCore.Transport.Grammar
import YastCore.Transport.Leaves

/-!
# Constants read back

Whether the text of an integer or of a path is a constant of the language that stands for the same
value. The scanner knows no sign, and it has its own notion of a path segment.
-/

namespace YastCore.Transport

open Interp

/-! ### Integers -/

lemma reads_of_scanLeaf {t : Text} {v : YCPValue} (h : scanLeaf t = some v) (hnull : v.isNull = false) :
    Reads t v [] := by
  unfold scanLeaf at h
  split at h
  next u hscan =>
    cases h
    exact reads_constant hscan hnull
  next t' hscan =>
    split at h
    next j hscan' =>
      cases h
      exact reads_negated hscan hscan'
    next => cases h
  next => cases h

/-- The parser reads the text of an integer up to its end, and the constant that it makes has this value. -/
def TextDenotes (i j : Int64) : Prop :=
  ∀ heap, ∃ n p, (∀ fuel, n ≤ fuel → expression fuel heap (integerToText i) = some p) ∧ p.rest = [] ∧
    p.heap.evaluate true p.c = some (.integer j)

lemma textDenotes_readInteger (i : Int64) : TextDenotes i (readInteger i) := by
  intro heap
  obtain ⟨n, p, hexpr, hresult⟩ := (reads_of_scanLeaf (scanLeaf_integer i) rfl).code heap
  exact ⟨n, p, hexpr, hresult.rest_eq, hresult.denotes.evaluate⟩

/-- There is only one value that a text denotes. -/
lemma TextDenotes.unique {i j k : Int64} (hj : TextDenotes i j) (hk : TextDenotes i k) : j = k := by
  obtain ⟨n, p, hp, -, hvalue⟩ := hj []
  obtain ⟨m, q, hq, -, hvalue'⟩ := hk []
  have hpq : p = q := Option.some.inj ((hp (max n m) (le_max_left n m)).symm.trans (hq _ (le_max_right n m)))
  rw [← hpq, hvalue] at hvalue'
  exact YCPValue.integer.inj (Option.some.inj hvalue')

/-- The text of an integer denotes the integer unless it is the least one: `atoll` ends one below its
magnitude. -/
theorem integerText_denotes_iff (i : Int64) : TextDenotes i i ↔ i ≠ Int64.minValue := by
  constructor
  · rintro h rfl
    exact absurd (h.unique (textDenotes_readInteger _)) (by decide)
  · intro h
    have hread := textDenotes_readInteger i
    rwa [readInteger, if_neg h] at hread

theorem integerText_least :
    ¬TextDenotes Int64.minValue Int64.minValue ∧ TextDenotes Int64.minValue (-Int64.maxValue) :=
  ⟨fun h => absurd (h.unique (textDenotes_readInteger _)) (by decide), textDenotes_readInteger _⟩

/-! ### Building paths -/

/-- The path that `topath` makes of a string; `none` where the constructor reads past the end of the text. -/
def pathOfString (s : Text) : Option (List PathComponent) :=
  parsePath (cut (if s.head? = some 46 then s else 46 :: s))

/-- `p_topath` -/
def pTopath : YCPValue → Option YCPValue
  | .path p => some (.path p)
  | .string s => (pathOfString s).map .path
  | _ => some .null

/-- The path is what `topath` made of a string, the first one, with strings appended. -/
inductive Built : List PathComponent → List PathComponent → Prop where
  | topath {s : Text} {r : List PathComponent} (made : pTopath (.string s) = some (.path r)) : Built r r
  | append {r p q : List PathComponent} {s : Text} (built : Built r p) (nul_free : 0 ∉ s)
      (made : pAdd (.path p) (.string s) = .ret (.path q)) : Built r q

/-! ### The segments of a path -/

/-- What the scanner asks of a segment. -/
def startsSegment (c : PathComponent) : Bool := c.complex || !(c.component.head?.map isDigit).getD false

/-- The component is read back: without quotes it does not start with a digit, and its text has no NUL. -/
def Readable (c : PathComponent) : Prop := startsSegment c = true ∧ 0 ∉ c.component

lemma scanQuoted_plain {c : UInt8} (h34 : c ≠ 34) (h92 : c ≠ 92) (t : Text) :
    scanQuoted (c :: t) = (scanQuoted t).map fun q => (c :: q.1, q.2) := by
  cases t with
  | nil =>
    rw [scanQuoted, scanQuoted, if_neg h34]
    rfl
  | cons d t => rw [scanQuoted, if_neg h34, if_neg h92]

lemma scanQuoted_escape {d : UInt8} (hd : d ≠ 10) (t : Text) :
    scanQuoted (92 :: d :: t) = (scanQuoted t).map fun q => (92 :: d :: q.1, q.2) := by
  rw [scanQuoted, if_neg (by decide), if_pos rfl, if_neg hd]

lemma scanQuoted_escapePathChar (isprint : UInt8 → Bool) (c : UInt8) (t : Text) :
    scanQuoted (escapePathChar isprint c ++ t) =
      (scanQuoted t).map fun q => (escapePathChar isprint c ++ q.1, q.2) := by
  rcases escapePathChar_cases isprint c with ⟨d, -, hdc, h⟩ | ⟨h92, h34, h⟩ | h
  · have hd : d ≠ 10 := by
      rintro rfl
      have hc : c = 10 := hdc.symm
      rw [hc] at h
      cases h
    rw [h]
    exact scanQuoted_escape hd t
  · rw [h]
    exact scanQuoted_plain h34 h92 t
  · have hc := c.toNat_lt
    obtain ⟨-, -, ha92, ha34⟩ := hexDigit_spec (c.toNat / 16) (by omega)
    obtain ⟨-, -, hb92, hb34⟩ := hexDigit_spec (c.toNat % 16) (by omega)
    rw [h]
    simp only [List.cons_append, List.nil_append]
    rw [scanQuoted_escape (by decide), scanQuoted_plain ha34 ha92, scanQuoted_plain hb34 hb92, Option.map_map,
      Option.map_map]
    rfl

lemma scanQuoted_flatMap (isprint : UInt8 → Bool) (t rest : Text) :
    scanQuoted (t.flatMap (escapePathChar isprint) ++ 34 :: rest) =
      some (t.flatMap (escapePathChar isprint) ++ [34], rest) := by
  induction t with
  | nil => cases rest <;> rfl
  | cons c t ih =>
    rw [List.flatMap_cons, List.append_assoc, scanQuoted_escapePathChar, ih, Option.map_some, List.append_assoc]

/-- The characters of a component without quotes, for the scanner. -/
lemma simplePathChar_scanned {c : UInt8} (h : isSimplePathChar c = true) :
    (isWordChar c || c == 45) = true ∧ (c ≠ 45 → (isAlpha c || c == 95) = !isDigit c) := by
  have hall : ∀ n : Fin 256, isSimplePathChar (UInt8.ofNat n) = true →
      (isWordChar (UInt8.ofNat n) || UInt8.ofNat n == 45) = true ∧
        (UInt8.ofNat n ≠ 45 → (isAlpha (UInt8.ofNat n) || UInt8.ofNat n == 95) = !isDigit (UInt8.ofNat n)) := by
    decide +kernel
  have hc := hall ⟨c.toNat, c.toNat_lt⟩
  rw [UInt8.ofNat_toNat] at hc
  exact hc h

lemma longest_simple {p : UInt8 → Bool} {t rest : Text} (ht : ∀ c ∈ t, p c = true)
    (hrest : rest.head? = some 46 ∨ rest = []) (hdot : p 46 = false) : longest p (t ++ rest) = (t, rest) := by
  rcases hrest with hhead | rfl
  · obtain ⟨r, rfl⟩ := List.head?_eq_some_iff.mp hhead
    exact longest_append r ht hdot
  · rw [List.append_nil]
    exact longest_eq_self ht

/-- The scanner takes the text of a component for a segment unless it starts with a digit. -/
lemma scanSegment_toText (isprint : UInt8 → Bool) (c : PathComponent) {rest : Text}
    (hrest : rest.head? = some 46 ∨ rest = []) :
    scanSegment (c.toText isprint ++ rest) =
      if startsSegment c = true then some (c.toText isprint, rest) else none := by
  cases hc : c.complex with
  | true =>
    have hstarts : startsSegment c = true := by rw [startsSegment, hc, Bool.true_or]
    rw [if_pos hstarts, PathComponent.toText, if_pos hc, List.cons_append, List.append_assoc,
      List.singleton_append, scanSegment, if_neg (by decide), if_pos rfl, scanQuoted_flatMap]
    rfl
  | false =>
    obtain ⟨hne, hchars, hfirst, -⟩ := simpleComponent_spec (c.simple_text hc)
    obtain ⟨d, t, ht⟩ := List.exists_cons_of_ne_nil hne
    rw [ht] at hchars hfirst
    rw [List.forall_mem_cons] at hchars
    have hd := (simplePathChar_scanned hchars.1).2 fun h45 => hfirst (by rw [h45]; rfl)
    have hlongest : longest (fun c => isWordChar c || c == 45) (t ++ rest) = (t, rest) :=
      longest_simple (fun c hc => (simplePathChar_scanned (hchars.2 c hc)).1) hrest rfl
    have hstarts : startsSegment c = !isDigit d := by
      rw [startsSegment, hc, ht]
      rfl
    rw [PathComponent.toText, hc, if_neg Bool.false_ne_true, ht, List.cons_append, scanSegment, hd, hstarts,
      hlongest]
    cases hdigit : isDigit d with
    | true =>
      have hquote : d ≠ 34 := by
        rintro rfl
        cases hdigit
      simp [hquote]
    | false => rfl

/-! ### The path rule -/

/-- The text of the path is one path constant, and the scanner makes the same path of it. -/
def PathReadBack (isprint : UInt8 → Bool) (p : List PathComponent) : Prop :=
  scan (pathToText isprint p) = some (.constant (.path p), [])

lemma head_segments (isprint : UInt8 → Bool) (p : List PathComponent) :
    (p.flatMap fun c => 46 :: c.toText isprint).head? = some 46 ∨
      (p.flatMap fun c => 46 :: c.toText isprint) = [] := by
  cases p <;> simp

lemma scanSegments_cons (isprint : UInt8 → Bool) (c : PathComponent) {rest : Text}
    (hrest : rest.head? = some 46 ∨ rest = []) (n : Nat) :
    scanSegments (n + 1) (46 :: (c.toText isprint ++ rest)) =
      if startsSegment c = true then
        (46 :: (c.toText isprint ++ (scanSegments n rest).1), (scanSegments n rest).2)
      else ([], 46 :: (c.toText isprint ++ rest)) := by
  rw [scanSegments, List.head?_cons, if_pos rfl, List.drop_one, List.tail_cons, scanSegment_toText isprint c hrest]
  by_cases hc : startsSegment c = true
  · rw [if_pos hc, if_pos hc]
  · rw [if_neg hc, if_neg hc]

/-- The scanner gets to the end of the text exactly if every component begins as a segment. -/
lemma scanSegments_flatMap (isprint : UInt8 → Bool) {p : List PathComponent}
    (h : ∀ c ∈ p, startsSegment c = true) {n : Nat} (hn : p.length < n) :
    scanSegments n (p.flatMap fun c => 46 :: c.toText isprint) =
      (p.flatMap fun c => 46 :: c.toText isprint, []) := by
  induction p generalizing n with
  | nil =>
    cases n with
    | zero => cases hn
    | succ n => rfl
  | cons c p ih =>
    cases n with
    | zero => cases hn
    | succ n =>
      rw [List.forall_mem_cons] at h
      rw [List.flatMap_cons, List.cons_append, scanSegments_cons isprint c (head_segments isprint p), if_pos h.1,
        ih h.2 (Nat.lt_of_succ_lt_succ hn)]

lemma startsSegment_of_scanSegments (isprint : UInt8 → Bool) {p : List PathComponent} {n : Nat}
    (h : (scanSegments n (p.flatMap fun c => 46 :: c.toText isprint)).2 = []) :
    ∀ c ∈ p, startsSegment c = true := by
  induction p generalizing n with
  | nil => exact List.forall_mem_nil _
  | cons c p ih =>
    rw [List.flatMap_cons, List.cons_append] at h
    cases n with
    | zero => cases h
    | succ n =>
      rw [scanSegments_cons isprint c (head_segments isprint p)] at h
      by_cases hc : startsSegment c = true
      · rw [if_pos hc] at h
        exact List.forall_mem_cons.mpr ⟨hc, ih h⟩
      · rw [if_neg hc] at h
        cases h

lemma toText_last (isprint : UInt8 → Bool) (c : PathComponent) :
    c.toText isprint ≠ [] ∧ (c.toText isprint).getLast? ≠ some 45 := by
  cases hc : c.complex with
  | true => simp [PathComponent.toText, hc, List.getLast?_cons]
  | false =>
    obtain ⟨hne, -, -, hlast⟩ := simpleComponent_spec (c.simple_text hc)
    rw [PathComponent.toText, hc, if_neg Bool.false_ne_true]
    exact ⟨hne, hlast⟩

lemma segments_last (isprint : UInt8 → Bool) (p : List PathComponent) :
    (p.flatMap fun c => 46 :: c.toText isprint).getLast? ≠ some 45 := by
  induction p using List.reverseRecOn with
  | nil => simp
  | append_singleton p c _ =>
    obtain ⟨hne, hlast⟩ := toText_last isprint c
    have hcomponent : (46 :: c.toText isprint).getLast? = (c.toText isprint).getLast? :=
      List.getLast?_append_of_ne_nil [46] hne
    rw [List.flatMap_append, List.flatMap_singleton, List.getLast?_append_of_ne_nil _ (List.cons_ne_nil _ _),
      hcomponent]
    exact hlast

lemma length_le_segments (isprint : UInt8 → Bool) (p : List PathComponent) :
    2 * p.length ≤ (p.flatMap fun c => 46 :: c.toText isprint).length := by
  induction p with
  | nil => exact Nat.le_refl _
  | cons c p ih =>
    have hpos := List.length_pos_iff.mpr (toText_last isprint c).1
    rw [List.flatMap_cons, List.cons_append, List.length_cons, List.length_cons, List.length_append]
    omega

/-- A component is read back if its text keeps it and begins as a segment. -/
lemma forall_readable_iff {p : List PathComponent} :
    (∀ c ∈ p, Readable c) ↔ (∀ c ∈ p, startsSegment c = true) ∧ p.map PathComponent.carried = p := by
  have hself : p.map PathComponent.carried = p ↔ ∀ c ∈ p, 0 ∉ c.component := by
    rw [← forall₂_congr fun c _ => PathComponent.carried_eq_self (c := c)]
    simpa using List.map_inj_left (f := PathComponent.carried) (g := id) (l := p)
  rw [hself]
  exact forall₂_and

/-- The scanner takes the whole text. -/
lemma scanPath_segments (isprint : UInt8 → Bool) {p : List PathComponent} {t : Text} (hp : p ≠ [])
    (htext : pathToText isprint p = 46 :: t) (h : ∀ c ∈ p, startsSegment c = true) :
    scanPath t = some (.path (p.map PathComponent.carried), []) := by
  have hsegments : 46 :: t = p.flatMap fun c => 46 :: c.toText isprint := by
    rw [← htext, pathToText, if_neg hp]
  have hlength : p.length < t.length + 1 := by
    have hle := length_le_segments isprint p
    have hpos := List.length_pos_iff.mpr hp
    rw [← hsegments, List.length_cons] at hle
    omega
  have hscan : scanSegments (t.length + 1) (46 :: t) = (46 :: t, []) := by
    rw [hsegments]
    exact scanSegments_flatMap isprint h hlength
  have hlast : (46 :: t).getLast? ≠ some 45 := by
    rw [hsegments]
    exact segments_last isprint p
  have hcut : cut (46 :: t) = 46 :: t := by
    rw [← htext]
    exact cut_eq_self.mpr (zero_not_mem_pathToText isprint p)
  have hparse : parsePath (46 :: t) = some (p.map PathComponent.carried) := by
    rw [← htext]
    exact parsePath_pathToText isprint p
  have hne : p.map PathComponent.carried ≠ [] := by simpa using hp
  rw [scanPath, hscan]
  dsimp only
  rw [if_neg (List.cons_ne_nil _ _), if_neg hlast, hcut, hparse]
  dsimp only
  rw [if_neg fun hroot => hne hroot.1]

lemma rest_of_scanPath {t : Text} {path : List PathComponent} (hpath : path ≠ [])
    (h : scanPath t = some (.path path, [])) : (scanSegments (t.length + 1) (46 :: t)).2 = [] := by
  rw [scanPath] at h
  dsimp only at h
  split at h
  · cases h
    exact absurd rfl hpath
  split at h
  · cases h
  split at h
  · cases h
  split at h
  · cases h
  · exact (Prod.mk.inj (Option.some.inj h)).2

theorem readBack_iff (isprint : UInt8 → Bool) (p : List PathComponent) :
    PathReadBack isprint p ↔ ∀ c ∈ p, Readable c := by
  obtain ⟨t, htext⟩ := pathToText_cons isprint p
  have hscan : PathReadBack isprint p ↔ scanPath t = some (.path p, []) := by
    have htoken : scan (pathToText isprint p) = (scanPath t).map constantToken := by
      rw [htext]
      rfl
    rw [PathReadBack, htoken, Option.map_eq_some_iff]
    constructor
    · rintro ⟨⟨v, rest⟩, hv, htoken⟩
      cases htoken
      exact hv
    · intro h
      exact ⟨_, h, rfl⟩
  rw [hscan, forall_readable_iff]
  by_cases hp : p = []
  · subst hp
    have ht : t = [] := (List.cons.inj htext).2.symm
    rw [ht]
    exact iff_of_true rfl ⟨List.forall_mem_nil _, rfl⟩
  constructor
  · intro h
    have hrest := rest_of_scanPath hp h
    have hself := YCPValue.path.inj (scanPath_pathToText htext h)
    rw [← htext, pathToText, if_neg hp] at hrest
    exact ⟨startsSegment_of_scanSegments isprint hrest, hself.symm⟩
  · rintro ⟨hstarts, hself⟩
    rw [scanPath_segments isprint hp htext hstarts, hself]

lemma Built.forall_readable_iff {r p : List PathComponent} (h : Built r p) :
    (∀ c ∈ p, Readable c) ↔ ∀ c ∈ r, Readable c := by
  induction h with
  | topath => exact Iff.rfl
  | @append r p q s _ nul_free made ih =>
    have hq : p ++ [⟨s, true, PathComponent.text_of_complex s⟩] = q :=
      YCPValue.path.inj (BuiltinRun.ret.inj made)
    have hlast : Readable ⟨s, true, PathComponent.text_of_complex s⟩ := ⟨rfl, nul_free⟩
    rw [← hq, List.forall_mem_append, List.forall_mem_singleton, ih, and_iff_left hlast]

/-- A path that a program builds is read back exactly if `topath` made each component begin as a segment and
none with a NUL; appended strings are quoted and do no harm. -/
theorem built_readBack_iff (isprint : UInt8 → Bool) {r p : List PathComponent} (h : Built r p) :
    PathReadBack isprint p ↔ ∀ c ∈ r, Readable c :=
  (readBack_iff isprint p).trans h.forall_readable_iff

/-- `add (topath ("a"), "1")` -/
theorem appended_digit_readBack :
    PathReadBack (32 ≤ ·) [⟨[97], false, fun _ => rfl⟩, ⟨[49], true, PathComponent.text_of_complex [49]⟩] := by
  have htopath : Built [⟨[97], false, fun _ => rfl⟩] [⟨[97], false, fun _ => rfl⟩] := .topath (s := [97]) rfl
  have hbuilt := htopath.append (s := [49]) (by decide) rfl
  exact (built_readBack_iff _ hbuilt).mpr (List.forall_mem_singleton.mpr ⟨rfl, by decide⟩)

/-- `topath ("1")` is a path, but the scanner has no segment that starts with a digit. -/
theorem digit_not_readBack :
    Built [⟨[49], false, fun _ => rfl⟩] [⟨[49], false, fun _ => rfl⟩] ∧
      ¬PathReadBack (32 ≤ ·) [⟨[49], false, fun _ => rfl⟩] := by
  have htopath : Built [⟨[49], false, fun _ => rfl⟩] [⟨[49], false, fun _ => rfl⟩] := .topath (s := [49]) rfl
  refine ⟨htopath, fun h => ?_⟩
  have hread := (built_readBack_iff _ htopath).mp h _ (List.mem_singleton_self _)
  exact absurd hread.1 (by decide)

end YastCore.Transport
