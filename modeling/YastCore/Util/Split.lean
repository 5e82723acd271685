import Mathlib.Data.List.Infix
import Mathlib.Data.List.TakeWhile
import Mathlib.Tactic.Common
import YastCore.Value.Basic

/-!
# Splitting and joining strings

`stringutil::split` and `stringutil::join`. A pointer into the line is what it points at, up to and
including the NUL behind the line; a step behind that NUL is `none`.
-/

namespace YastCore.Util

/-! ### The two functions -/

def isSep (sep : Text) (c : UInt8) : Bool := sep.contains c

/-- `'\0'` is neither a separator nor a character of a word. -/
def isNonSep (sep : Text) (c : UInt8) : Bool := c != 0 && !isSep sep c

/-- `while (test (*p)) ++p` -/
def skip (test : UInt8 → Bool) : Text → Option Text
  | [] => none
  | c :: p => if test c then skip test p else some (c :: p)

/-- The loop of `split`. Each turn moves the pointer, and `fuel` bounds the turns. -/
def splitLoop (sep : Text) (singlesep : Bool) : Nat → Text → List Text → Option (List Text)
  | 0, _, _ => none
  | _ + 1, [], _ => none
  | fuel + 1, c :: p, words =>
    if c = 0 then some words
    else
      (skip (isNonSep sep) (c :: p)).bind fun q =>
        let words' := words ++ [(c :: p).take ((c :: p).length - q.length)]
        match q with
        | [] => none
        | d :: rest =>
          if d = 0 then splitLoop sep singlesep fuel (d :: rest) words'
          else if singlesep then
            match rest with
            | [] => none
            | e :: _ => splitLoop sep singlesep fuel rest (if e = 0 then words' ++ [[]] else words')
          else (skip (isSep sep) (d :: rest)).bind fun behind => splitLoop sep singlesep fuel behind words'

/-- The words, and the number of them that is returned. -/
def split (line sep : Text) (singlesep : Bool) : Option (List Text × UInt32) :=
  if line = [] then some ([], 0)
  else
    let start := line ++ [0]
    let first := if !singlesep && isSep sep (start.headD 0) then skip (isSep sep) start else some start
    (first.bind fun p => splitLoop sep singlesep start.length p []).map fun words =>
      (words, UInt32.ofNat words.length)

/-- The loop of `join`, with its counter of 32 bits. -/
def joinLoop (words : List Text) (sep : Text) : Nat → UInt32 → Text → Option Text
  | 0, _, _ => none
  | fuel + 1, i, ret =>
    if i.toNat < words.length then joinLoop words sep fuel (i + 1) (ret ++ (sep ++ words.getD i.toNat []))
    else some ret

/-- `join`, as far as `fuel` turns go. -/
def join (words : List Text) (sep : Text) (fuel : Nat) : Option Text :=
  match words with
  | [] => some []
  | word :: _ => joinLoop words sep fuel 1 word

/-! ### What a line is split into -/

/-- The maximal runs of a text that are free of `c`. -/
inductive Runs (c : UInt8) : Text → List Text → Prop
  | none {gap : Text} (hgap : ∀ x ∈ gap, x = c) : Runs c gap []
  | run {gap word rest : Text} {words : List Text} (hgap : ∀ x ∈ gap, x = c) (hne : word ≠ [])
      (hword : c ∉ word) (hend : ∀ x ∈ rest.head?, x = c) (hrest : Runs c rest words) :
      Runs c (gap ++ (word ++ rest)) (word :: words)

/-- The words of a line with single separators give the line again, and without them they are the
runs of the line. -/
structure SplitsAndJoins (s : Text) (c : UInt8) : Prop where
  joined : ∃ words nb fuel, split s [c] true = some (words, nb) ∧ join words [c] fuel = some s
  runs : ∃ words nb, split s [c] false = some (words, nb) ∧ Runs c s words ∧
    ∀ words', Runs c s words' → words' = words

/-! ### Runs -/

section Runs

variable {c : UInt8}

lemma filter_splitOn_gap {gap : Text} (hgap : ∀ x ∈ gap, x = c) (t : Text) :
    ((gap ++ t).splitOn c).filter (· ≠ []) = (t.splitOn c).filter (· ≠ []) := by
  induction gap with
  | nil => rfl
  | cons x gap ih =>
    obtain rfl := hgap x List.mem_cons_self
    have hsplit : (x :: (gap ++ t)).splitOn x = [] :: (gap ++ t).splitOn x := by
      simp [List.splitOn_cons_eq_if_modifyHead]
    rw [List.cons_append, hsplit, List.filter_cons_of_neg (by simp)]
    exact ih fun y hy => hgap y (List.mem_cons_of_mem x hy)

/-- A text has its runs in one way. -/
lemma Runs.eq_filter_splitOn {s : Text} {words : List Text} (h : Runs c s words) :
    words = (s.splitOn c).filter (· ≠ []) := by
  induction h with
  | none hgap =>
    have hsplit := filter_splitOn_gap hgap []
    rw [List.append_nil] at hsplit
    rw [hsplit]
    rfl
  | @run gap word rest words hgap hne hword hend hrest ih =>
    rw [filter_splitOn_gap hgap]
    cases rest with
    | nil =>
      rw [List.append_nil, List.splitOn_eq_singleton hword, ih]
      simp [hne]
    | cons d rest =>
      obtain rfl : d = c := hend d rfl
      rw [List.splitOn_append_cons_self_of_not_mem hword, List.filter_cons_of_pos (by simpa using hne), ih]
      have hone : ∀ x ∈ [d], x = d := by simp
      have hskip := filter_splitOn_gap hone rest
      rw [← hskip]
      rfl

lemma Runs.gap_append {gap s : Text} {words : List Text} (hgap : ∀ x ∈ gap, x = c) (h : Runs c s words) :
    Runs c (gap ++ s) words := by
  cases h with
  | none hgap' =>
    refine .none fun x hx => ?_
    rcases List.mem_append.mp hx with hx | hx
    · exact hgap x hx
    · exact hgap' x hx
  | run hgap' hne hword hend hrest =>
    rw [← List.append_assoc]
    refine .run (fun x hx => ?_) hne hword hend hrest
    rcases List.mem_append.mp hx with hx | hx
    · exact hgap x hx
    · exact hgap' x hx

end Runs

/-! ### The pointer -/

section Pointer

variable {c : UInt8}

lemma skip_append {test : UInt8 → Bool} {a : Text} (ha : ∀ x ∈ a, test x = true) {d : UInt8} (hd : test d = false)
    (b : Text) : skip test (a ++ d :: b) = some (d :: b) := by
  induction a with
  | nil => simp [skip, hd]
  | cons x a ih =>
    rw [List.cons_append, skip, if_pos (ha x List.mem_cons_self)]
    exact ih fun y hy => ha y (List.mem_cons_of_mem x hy)

/-- One turn of the loop, at a word that ends at `d`. -/
lemma splitLoop_word (singlesep : Bool) (fuel : Nat) {word : Text} (hword : ∀ x ∈ word, x ≠ 0 ∧ x ≠ c)
    {d : UInt8} (hd : d = 0 ∨ d = c) (hstart : word = [] → d ≠ 0) (rest : Text) (words : List Text) :
    splitLoop [c] singlesep (fuel + 1) (word ++ d :: rest) words =
      if d = 0 then splitLoop [c] singlesep fuel (d :: rest) (words ++ [word])
      else if singlesep then
        match rest with
        | [] => none
        | e :: _ =>
          splitLoop [c] singlesep fuel rest (if e = 0 then words ++ [word] ++ [[]] else words ++ [word])
      else
        (skip (isSep [c]) (d :: rest)).bind fun behind =>
          splitLoop [c] singlesep fuel behind (words ++ [word]) := by
  obtain ⟨x, p, hxp⟩ : ∃ x p, word ++ d :: rest = x :: p := List.exists_cons_of_ne_nil (by simp)
  have hx : x ≠ 0 := by
    cases word with
    | nil =>
      obtain rfl := (List.cons.inj hxp).1
      exact hstart rfl
    | cons y word =>
      obtain rfl := (List.cons.inj hxp).1
      exact (hword y List.mem_cons_self).1
  have hnonsep : ∀ x ∈ word, isNonSep [c] x = true := fun x hx => by simpa [isNonSep, isSep] using hword x hx
  have hdnonsep : isNonSep [c] d = false := by
    rcases hd with rfl | rfl
    · simp [isNonSep]
    · simp [isNonSep, isSep]
  have htake : (word ++ d :: rest).take ((word ++ d :: rest).length - (d :: rest).length) = word := by simp
  rw [hxp, splitLoop, if_neg hx, ← hxp, skip_append hnonsep hdnonsep, Option.bind_some]
  simp only [htake]
  rfl

lemma splitLoop_nul (singlesep : Bool) (fuel : Nat) (rest : Text) (words : List Text) :
    splitLoop [c] singlesep (fuel + 1) (0 :: rest) words = some words := by
  rw [splitLoop, if_pos rfl]

/-- The part of a text before its first separator. -/
lemma word_of_not_mem {word : Text} (h0 : 0 ∉ word) (hc : c ∉ word) : ∀ x ∈ word, x ≠ 0 ∧ x ≠ c :=
  fun _ hx => ⟨fun h => h0 (h ▸ hx), fun h => hc (h ▸ hx)⟩

lemma splitLoop_singlesep (fuel : Nat) {t : Text} (h0 : 0 ∉ t) (hne : t ≠ []) (hfuel : t.length < fuel)
    (words : List Text) : splitLoop [c] true fuel (t ++ [0]) words = some (words ++ t.splitOn c) := by
  induction fuel generalizing t words with
  | zero => simp at hfuel
  | succ fuel ih =>
    obtain ⟨fuel, rfl⟩ : ∃ n, fuel = n + 1 := by
      have hpos := List.length_pos_iff.mpr hne
      exact ⟨fuel - 1, by omega⟩
    by_cases hc : c ∈ t
    · obtain ⟨word, rest, rfl, hword⟩ := List.eq_append_cons_of_mem hc
      have hc0 : c ≠ 0 := fun h => h0 (h ▸ hc)
      have hword0 := word_of_not_mem (fun h => h0 (List.mem_append_left _ h)) hword
      have hassoc : word ++ c :: rest ++ [0] = word ++ c :: (rest ++ [0]) := by simp
      rw [hassoc, splitLoop_word true _ hword0 (.inr rfl) (fun _ => hc0), if_neg hc0, if_pos rfl,
        List.splitOn_append_cons_self_of_not_mem hword]
      cases rest with
      | nil => simp [splitLoop_nul]
      | cons e rest =>
        have he : e ≠ 0 := fun h => h0 (by simp [h])
        have hrest := ih (t := e :: rest) (fun h => h0 (by simp [List.mem_cons.mp h])) (by simp)
          (by simp only [List.length_append, List.length_cons] at hfuel ⊢; omega) (words ++ [word])
        simpa [he] using hrest
    · have hword := word_of_not_mem h0 hc
      rw [splitLoop_word true _ hword (.inl rfl) (fun h => absurd h hne), if_pos rfl, splitLoop_nul,
        List.splitOn_eq_singleton hc]

/-- The separators at the front of a text. -/
lemma exists_gap (c : UInt8) (t : Text) :
    ∃ gap rest, t = gap ++ rest ∧ (∀ x ∈ gap, x = c) ∧ rest.head? ≠ some c :=
  ⟨t.takeWhile (· == c), t.dropWhile (· == c), List.takeWhile_append_dropWhile.symm,
    fun x hx => by simpa using List.mem_takeWhile_imp hx, fun h => by
      have hhead := List.head?_dropWhile_not (· == c) t
      rw [h] at hhead
      simp at hhead⟩

lemma skip_gap (hc0 : c ≠ 0) {gap rest : Text} (hgap : ∀ x ∈ gap, x = c) (hrest : rest.head? ≠ some c) :
    skip (isSep [c]) (gap ++ rest ++ [0]) = some (rest ++ [0]) := by
  have hsep : ∀ x ∈ gap, isSep [c] x = true := fun x hx => by simp [isSep, hgap x hx]
  cases rest with
  | nil =>
    have hnul : isSep [c] 0 = false := by simpa [isSep] using fun h => hc0 h.symm
    simpa using skip_append hsep hnul []
  | cons d rest =>
    have hd : isSep [c] d = false := by simpa [isSep] using hrest
    simpa using skip_append hsep hd (rest ++ [0])

lemma splitLoop_runs (fuel : Nat) {t : Text} (h0 : 0 ∉ t) (hhead : t.head? ≠ some c) (hfuel : t.length < fuel)
    (words : List Text) :
    ∃ runs, splitLoop [c] false fuel (t ++ [0]) words = some (words ++ runs) ∧ Runs c t runs := by
  have hnil : ∀ x ∈ ([] : Text), x = c := by simp
  induction fuel generalizing t words with
  | zero => simp at hfuel
  | succ fuel ih =>
    by_cases hne : t = []
    · subst hne
      exact ⟨[], by simpa using splitLoop_nul false fuel [] words, .none (by simp)⟩
    · obtain ⟨fuel, rfl⟩ : ∃ n, fuel = n + 1 := by
        have hpos := List.length_pos_iff.mpr hne
        exact ⟨fuel - 1, by omega⟩
      by_cases hc : c ∈ t
      · obtain ⟨word, behind, rfl, hword⟩ := List.eq_append_cons_of_mem hc
        have hc0 : c ≠ 0 := fun h => h0 (h ▸ hc)
        have hword0 := word_of_not_mem (fun h => h0 (List.mem_append_left _ h)) hword
        have hwordNe : word ≠ [] := fun h => hhead (by simp [h])
        obtain ⟨gap, rest, rfl, hgap, hrest⟩ := exists_gap c behind
        have hgap' : ∀ x ∈ c :: gap, x = c := by simpa using hgap
        obtain ⟨runs, hloop, hruns⟩ := ih (t := rest) (fun h => h0 (by simp [h])) hrest
          (by simp only [List.length_append, List.length_cons] at hfuel; omega) (words ++ [word])
        have hassoc : word ++ c :: (gap ++ rest) ++ [0] = word ++ c :: (gap ++ rest ++ [0]) := by simp
        have hskip : skip (isSep [c]) (c :: (gap ++ rest ++ [0])) = some (rest ++ [0]) := by
          simpa using skip_gap hc0 hgap' hrest
        refine ⟨word :: runs, ?_, ?_⟩
        · rw [hassoc, splitLoop_word false _ hword0 (.inr rfl) (fun _ => hc0), if_neg hc0, if_neg (by simp), hskip,
            Option.bind_some, hloop]
          simp
        · exact .run hnil hwordNe hword (by simp) (hruns.gap_append hgap')
      · have hword := word_of_not_mem h0 hc
        refine ⟨[t], ?_, ?_⟩
        · rw [splitLoop_word false _ hword (.inl rfl) (fun h => absurd h hne), if_pos rfl, splitLoop_nul]
        · have hend : ∀ x ∈ ([] : Text).head?, x = c := by simp
          simpa using Runs.run hnil hne hc hend (.none hnil)

end Pointer

/-! ### Splitting a line -/

section Split

variable {c : UInt8} {s : Text}

lemma split_singlesep (h0 : 0 ∉ s) (hne : s ≠ []) :
    split s [c] true = some (s.splitOn c, UInt32.ofNat (s.splitOn c).length) := by
  have hloop := splitLoop_singlesep (c := c) (s ++ [0]).length h0 hne (by simp) []
  rw [List.nil_append] at hloop
  rw [split, if_neg hne]
  simp only [Bool.not_true, Bool.false_and, Bool.false_eq_true, if_false, Option.bind_some, hloop]
  rfl

lemma split_runs (h0 : 0 ∉ s) : ∃ words nb, split s [c] false = some (words, nb) ∧ Runs c s words := by
  by_cases hne : s = []
  · subst hne
    exact ⟨[], 0, rfl, .none (by simp)⟩
  · obtain ⟨gap, rest, rfl, hgap, hrest⟩ := exists_gap c s
    have hfirst : (if !false && isSep [c] ((gap ++ rest ++ [0]).headD 0) then skip (isSep [c]) (gap ++ rest ++ [0])
        else some (gap ++ rest ++ [0])) = some (rest ++ [0]) := by
      cases gap with
      | nil =>
        cases rest with
        | nil => exact absurd rfl hne
        | cons d rest =>
          have hd : isSep [c] d = false := by simpa [isSep] using hrest
          simp [hd]
      | cons d gap =>
        obtain rfl := hgap d List.mem_cons_self
        have hd0 : d ≠ 0 := fun h => h0 (by simp [h])
        have hd : isSep [d] d = true := by simp [isSep]
        simpa [hd] using skip_gap hd0 hgap hrest
    obtain ⟨words, hloop, hruns⟩ := splitLoop_runs (gap ++ rest ++ [0]).length (t := rest)
      (fun h => h0 (List.mem_append_right _ h)) hrest (by simp; omega) []
    refine ⟨words, UInt32.ofNat words.length, ?_, hruns.gap_append hgap⟩
    rw [split, if_neg hne]
    simp only [hfirst, Option.bind_some, hloop]
    rfl

end Split

/-! ### Joining words -/

section Join

variable (words : List Text) (sep : Text)

/-- The counter reaches the number of words. -/
lemma joinLoop_of_lt (h : words.length < 2 ^ 32) (n : Nat) {i : UInt32} (hi : i.toNat + n = words.length) (ret : Text) :
    joinLoop words sep (n + 1) i ret = some (ret ++ (words.drop i.toNat).flatMap (sep ++ ·)) := by
  induction n generalizing i ret with
  | zero =>
    have hend : words.drop i.toNat = [] := List.drop_eq_nil_of_le (by omega)
    rw [joinLoop, if_neg (by omega), hend]
    simp
  | succ n ih =>
    have hnext : (i + 1).toNat = i.toNat + 1 := by
      rw [UInt32.toNat_add]
      exact Nat.mod_eq_of_lt (by simp; omega)
    have hlt : i.toNat < words.length := by omega
    rw [joinLoop, if_pos hlt, ih (by omega), hnext, List.drop_eq_getElem_cons hlt, List.flatMap_cons,
      List.getD_eq_getElem?_getD, List.getElem?_eq_getElem hlt]
    simp

/-- A counter of 32 bits never reaches a larger number. -/
lemma joinLoop_of_le (h : 2 ^ 32 ≤ words.length) (fuel : Nat) (i : UInt32) (ret : Text) :
    joinLoop words sep fuel i ret = none := by
  induction fuel generalizing i ret with
  | zero => rfl
  | succ fuel ih => rw [joinLoop, if_pos (Nat.lt_of_lt_of_le i.toNat_lt h), ih]

lemma intercalate_eq_flatMap (word : Text) :
    sep.intercalate (word :: words) = word ++ words.flatMap (sep ++ ·) := by
  induction words generalizing word with
  | nil => simp
  | cons next words ih => rw [List.intercalate_cons_cons, ih, List.flatMap_cons, List.append_assoc, List.append_assoc]

lemma join_of_lt (h : words.length < 2 ^ 32) : join words sep words.length = some (sep.intercalate words) := by
  cases words with
  | nil => rfl
  | cons word words =>
    have hone : (1 : UInt32).toNat = 1 := rfl
    rw [join, List.length_cons, joinLoop_of_lt _ sep h words.length (by rw [hone, List.length_cons]; omega),
      intercalate_eq_flatMap]
    rfl

lemma join_of_le (h : 2 ^ 32 ≤ words.length) (fuel : Nat) : join words sep fuel = none := by
  cases words with
  | nil => simp at h
  | cons word words => exact joinLoop_of_le _ sep h fuel 1 word

end Join

/-! ### The property -/

lemma length_splitOn (c : UInt8) (s : Text) : (s.splitOn c).length = s.count c + 1 := by
  induction s with
  | nil => rfl
  | cons x s ih =>
    rw [List.splitOn_cons_eq_if_modifyHead, List.count_cons]
    by_cases hx : (x == c) = true
    · rw [if_pos hx, if_pos hx, List.length_cons, ih]
    · rw [if_neg hx, if_neg hx, List.length_modifyHead, ih]

lemma splitsAndJoins_of_lt {s : Text} {c : UInt8} (h0 : 0 ∉ s) (h : s.count c + 1 < 2 ^ 32) :
    SplitsAndJoins s c := by
  obtain ⟨words, nb, hsplit, hruns⟩ := split_runs (c := c) h0
  refine ⟨?_, words, nb, hsplit, hruns, fun words' h' => h'.eq_filter_splitOn.trans hruns.eq_filter_splitOn.symm⟩
  by_cases hne : s = []
  · subst hne
    exact ⟨[], 0, 0, rfl, rfl⟩
  · have hlt : (s.splitOn c).length < 2 ^ 32 := by rwa [length_splitOn]
    refine ⟨s.splitOn c, _, (s.splitOn c).length, split_singlesep h0 hne, ?_⟩
    rw [join_of_lt _ [c] hlt, List.intercalate_splitOn]

lemma not_splitsAndJoins_of_le {s : Text} {c : UInt8} (h0 : 0 ∉ s) (h : 2 ^ 32 ≤ s.count c + 1) :
    ¬SplitsAndJoins s c := by
  rintro ⟨⟨words, nb, fuel, hsplit, hjoin⟩, -⟩
  have hne : s ≠ [] := by
    rintro rfl
    simp at h
  rw [split_singlesep h0 hne] at hsplit
  obtain ⟨rfl, -⟩ := Prod.mk.inj (Option.some.inj hsplit)
  rw [join_of_le _ [c] (by rwa [length_splitOn])] at hjoin
  cases hjoin

/-- The words are joined again unless there are more of them than the counter can count. -/
theorem splitsAndJoins_iff {s : Text} (c : UInt8) (h0 : 0 ∉ s) :
    SplitsAndJoins s c ↔ s.count c + 1 < 2 ^ 32 := by
  constructor
  · intro h
    by_contra hlt
    exact not_splitsAndJoins_of_le h0 (by omega) h
  · exact splitsAndJoins_of_lt h0

/-- `":a::b"` at its colons. -/
theorem splitsAndJoins_colons : SplitsAndJoins [58, 97, 58, 58, 98] 58 :=
  (splitsAndJoins_iff 58 (by decide)).mpr (by decide)

/-- A line of 2³² - 1 colons has 2³² words. -/
theorem colons_not_joined : ¬∀ s c, 0 ∉ s → SplitsAndJoins s c := by
  intro h
  have h0 : (0 : UInt8) ∉ List.replicate (2 ^ 32 - 1) (58 : UInt8) := fun hmem =>
    absurd (List.eq_of_mem_replicate hmem) (by decide)
  refine not_splitsAndJoins_of_le h0 ?_ (h _ 58 h0)
  rw [List.count_replicate_self]
  omega

end YastCore.Util
