import YastCore.Lib.CharString
import YastCore.Value.Path

/-!
# The regular expression builtins

`solve_regular_expression` over the C library's `regcomp` and `regexec`, which are parameters, and
`regexppos`, which is told only the text that was matched and looks for that text again.
-/

namespace YastCore

open CharString YCPValue

/-! ### The library -/

/-- A `regmatch_t` that is in use, in an input of `n` bytes. A `regoff_t` has 32 bits. -/
structure Interval (n : Nat) where
  so : Nat
  eo : Nat
  so_le : so ≤ eo
  eo_le : eo ≤ n
  eo_lt : eo < 2 ^ 31

/-- What `regexec` stores: the whole match, and the part of it for each pair of parentheses that took
part. -/
structure RegMatch (n : Nat) where
  whole : Interval n
  part : Nat → Option (Interval n)

structure RegexLib where
  Compiled : Type
  /-- The compiled pattern, or the text that `regerror` has for the failure. -/
  regcomp : Text → Except Text Compiled
  reNsub : Compiled → Nat
  regexec : Compiled → (input : Text) → Option (RegMatch input.length)

/-- `matchptr[i]`; `none` is an offset of -1. -/
def RegMatch.at {n : Nat} (m : RegMatch n) (i : Nat) : Option (Interval n) :=
  if i = 0 then some m.whole else m.part i

/-! ### The solver -/

def errMax : Nat := 80

def subMax : Nat := 10

/-- `solved` is not written on an error, and nothing reads it then. -/
structure RegRet where
  resultStr : Text
  matchStr : List Text
  matchNb : Nat
  errorStr : Text
  error : Bool
  solved : Bool

def RegRet.initial : RegRet := ⟨[], List.replicate subMax [], 0, [], true, false⟩

/-- After `regexec` was called, with or without a match. -/
def RegRet.executed (solved : Bool) : RegRet := ⟨[], List.replicate subMax [], 0, [], false, solved⟩

/-- `string (error)` after the message was cut to the buffer. -/
def errorString (message : Text) : Text := cut (message.take (errMax - 1))

def matchedText (input : Text) {n : Nat} : Option (Interval n) → Text
  | some m => substr input m.so (m.eo - m.so)
  | none => []

/-- One turn of the loop over the subexpressions. The array has one place too few for the last of
the subexpressions that the test before it lets through, and `none` is the write past its end. -/
def storeMatch (input : Text) (m : RegMatch input.length) (ret : RegRet) (i : Nat) : Option RegRet :=
  if i < ret.matchStr.length then
    some { ret with matchStr := ret.matchStr.set i (matchedText input (m.at i)), matchNb := i }
  else none

/-- The loop over the backslashes of `result`. -/
def substitute (matchStr : List Text) : Text → Text
  | [] => []
  | [c] => [c]
  | c :: d :: rest =>
    if c = 92 ∧ 49 ≤ d ∧ d ≤ 57 then matchStr.getD (d.toNat - 48) [] ++ substitute matchStr rest
    else c :: substitute matchStr (d :: rest)

/-- `solve_regular_expression`, given what `c_str()` shows of its arguments. -/
def solveRegularExpression (lib : RegexLib) (input pattern result : Text) : Option RegRet :=
  match lib.regcomp pattern with
  | .error message => some { RegRet.initial with errorStr := errorString message }
  | .ok compiled =>
    if subMax < lib.reNsub compiled then
      some { RegRet.initial with
        errorStr := errorString ("too many subexpresions: ".toUTF8.toList ++
          (Nat.repr (lib.reNsub compiled)).toUTF8.toList) }
    else
      match lib.regexec compiled input with
      | none => some (RegRet.executed false)
      | some m => do
        let stored ← (List.range (min (lib.reNsub compiled) subMax + 1)).foldlM (storeMatch input m)
          (RegRet.executed true)
        some { stored with resultStr := substitute stored.matchStr result }

/-- `YCPInteger` of a position; `npos` is -1 as a `long long`. -/
def findInteger : Option Nat → YCPValue
  | some pos => integer (Int64.ofNat pos)
  | none => integer (-1)

def sRegexppos (lib : RegexLib) : Option Text → Option Text → Option YCPValue
  | some inp, some pat => do
    let result ← solveRegularExpression lib (cut inp) (cut pat) []
    if result.error then some null
    else if result.solved then
      let matched := result.matchStr.getD 0 []
      some (list [findInteger (find inp matched), integer (Int64.ofNat matched.length)])
    else some (list [])
  | _, _ => some null

/-! ### What was matched -/

/-- What `regexec` reports; `none` where it is not called. -/
def RegexLib.report (lib : RegexLib) (inp pat : Text) : Option (Option (RegMatch (cut inp).length)) :=
  match lib.regcomp (cut pat) with
  | .error _ => none
  | .ok compiled => if subMax < lib.reNsub compiled then none else some (lib.regexec compiled (cut inp))

def RegexLib.subexpressions (lib : RegexLib) (pat : Text) : Option Nat :=
  (lib.regcomp (cut pat)).toOption.map lib.reNsub

/-! ### Storing the subexpressions -/

/-- What storing a subexpression other than the whole match leaves alone. -/
structure SameOutcome (ret ret' : RegRet) : Prop where
  length_eq : ret'.matchStr.length = ret.matchStr.length
  first_eq : ret'.matchStr.getD 0 [] = ret.matchStr.getD 0 []
  error_eq : ret'.error = ret.error
  solved_eq : ret'.solved = ret.solved

lemma SameOutcome.trans {a b c : RegRet} (hab : SameOutcome a b) (hbc : SameOutcome b c) :
    SameOutcome a c :=
  ⟨hbc.length_eq.trans hab.length_eq, hbc.first_eq.trans hab.first_eq, hbc.error_eq.trans hab.error_eq,
    hbc.solved_eq.trans hab.solved_eq⟩

variable {input : Text} (m : RegMatch input.length)

lemma storeMatch_of_lt {ret : RegRet} {i : Nat} (hi : i < ret.matchStr.length) :
    storeMatch input m ret i =
      some { ret with matchStr := ret.matchStr.set i (matchedText input (m.at i)), matchNb := i } :=
  if_pos hi

lemma storeMatch_sameOutcome {ret ret' : RegRet} {i : Nat} (hi : i ≠ 0)
    (h : storeMatch input m ret i = some ret') : SameOutcome ret ret' := by
  by_cases hlt : i < ret.matchStr.length
  · rw [storeMatch_of_lt m hlt] at h
    obtain rfl := Option.some.inj h
    refine ⟨by simp, ?_, rfl, rfl⟩
    simp [List.getD, List.getElem?_set_ne hi]
  · simp [storeMatch, hlt] at h

/-- The loop runs to its end when all its subscripts are in the array. -/
lemma storeMatches_of_lt {l : List Nat} {ret : RegRet} (h0 : 0 ∉ l) (h : ∀ i ∈ l, i < ret.matchStr.length) :
    ∃ ret', l.foldlM (storeMatch input m) ret = some ret' ∧ SameOutcome ret ret' := by
  induction l generalizing ret with
  | nil => exact ⟨ret, rfl, rfl, rfl, rfl, rfl⟩
  | cons i l ih =>
    have hi := h i List.mem_cons_self
    have hi0 : i ≠ 0 := fun hi0 => h0 (by simp [hi0])
    have hstep := storeMatch_of_lt m hi
    have hsame := storeMatch_sameOutcome m hi0 hstep
    obtain ⟨ret', hrest, hrun⟩ := ih (fun hl => h0 (List.mem_cons_of_mem i hl))
      (fun j hj => by rw [hsame.length_eq]; exact h j (List.mem_cons_of_mem i hj))
    refine ⟨ret', ?_, hsame.trans hrun⟩
    rw [List.foldlM_cons, hstep]
    exact hrest

lemma storeMatches_of_not_lt {l : List Nat} {ret : RegRet} {j : Nat} (hj : j ∈ l)
    (h : ¬j < ret.matchStr.length) : l.foldlM (storeMatch input m) ret = none := by
  induction l generalizing ret with
  | nil => simp at hj
  | cons i l ih =>
    rw [List.foldlM_cons]
    by_cases hi : i < ret.matchStr.length
    · rw [storeMatch_of_lt m hi]
      rcases List.mem_cons.mp hj with rfl | hj
      · exact absurd hi h
      · exact ih hj (by simpa using h)
    · simp [storeMatch, hi]

/-- The whole match is stored first, and what follows does not write there again. -/
lemma storeMatches_executed {nsub : Nat} (h : nsub < subMax) :
    ∃ stored, (List.range (nsub + 1)).foldlM (storeMatch input m) (RegRet.executed true) = some stored ∧
      stored.error = false ∧ stored.solved = true ∧
      stored.matchStr.getD 0 [] = matchedText input (some m.whole) := by
  let first : RegRet := ⟨[], (RegRet.executed true).matchStr.set 0 (matchedText input (m.at 0)), 0, [], false, true⟩
  have hlength : 0 < (RegRet.executed true).matchStr.length := by decide
  have hstep : storeMatch input m (RegRet.executed true) 0 = some first := storeMatch_of_lt m hlength
  have hbounds : ∀ i ∈ (List.range nsub).map Nat.succ, i < first.matchStr.length := by
    intro i hi
    obtain ⟨j, hj, rfl⟩ := List.mem_map.mp hi
    have hj' := List.mem_range.mp hj
    simp only [first, RegRet.executed, List.length_set, List.length_replicate]
    omega
  have h0 : 0 ∉ (List.range nsub).map Nat.succ := by simp
  obtain ⟨stored, hrest, hsame⟩ := storeMatches_of_lt m h0 hbounds
  refine ⟨stored, ?_, hsame.error_eq, hsame.solved_eq, hsame.first_eq⟩
  rw [List.range_succ_eq_map, List.foldlM_cons, hstep]
  exact hrest

variable {m}

/-! ### The outcomes of the solver -/

section Outcomes

variable {lib : RegexLib} {inp pat : Text}

lemma solve_of_not_called (h : lib.report inp pat = none) (result : Text) :
    ∃ ret, solveRegularExpression lib (cut inp) (cut pat) result = some ret ∧ ret.error = true := by
  unfold solveRegularExpression
  unfold RegexLib.report at h
  split
  · exact ⟨_, rfl, rfl⟩
  · next compiled hcomp =>
    rw [hcomp] at h
    by_cases hsub : subMax < lib.reNsub compiled
    · rw [if_pos hsub]
      exact ⟨_, rfl, rfl⟩
    · simp [hsub] at h

lemma solve_of_no_match (h : lib.report inp pat = some none) (result : Text) :
    solveRegularExpression lib (cut inp) (cut pat) result =
      some (RegRet.executed false) := by
  unfold solveRegularExpression
  unfold RegexLib.report at h
  split
  · next message hcomp => simp [hcomp] at h
  · next compiled hcomp =>
    rw [hcomp] at h
    by_cases hsub : subMax < lib.reNsub compiled
    · simp [hsub] at h
    · have hexec : lib.regexec compiled (cut inp) = none := by simpa [hsub] using h
      rw [if_neg hsub, hexec]

/-- A pattern of a match that is reported, and the loop over its subexpressions. -/
lemma solve_of_match {r : RegMatch (cut inp).length} (h : lib.report inp pat = some (some r)) (result : Text) :
    ∃ nsub ≤ subMax, lib.subexpressions pat = some nsub ∧
      solveRegularExpression lib (cut inp) (cut pat) result =
        ((List.range (nsub + 1)).foldlM (storeMatch (cut inp) r) (RegRet.executed true)).bind fun stored =>
          some { stored with resultStr := substitute stored.matchStr result } := by
  unfold solveRegularExpression RegexLib.subexpressions
  unfold RegexLib.report at h
  cases hcomp : lib.regcomp (cut pat) with
  | error message => simp [hcomp] at h
  | ok compiled =>
    rw [hcomp] at h
    by_cases hsub : subMax < lib.reNsub compiled
    · simp [hsub] at h
    · have hexec : lib.regexec compiled (cut inp) = some r := by simpa [hsub] using h
      refine ⟨lib.reNsub compiled, by omega, rfl, ?_⟩
      simp only [if_neg hsub, hexec, Nat.min_eq_left (Nat.le_of_not_lt hsub)]
      rfl

lemma solve_of_overrun {r : RegMatch (cut inp).length} (h : lib.report inp pat = some (some r))
    (hsub : lib.subexpressions pat = some subMax) (result : Text) :
    solveRegularExpression lib (cut inp) (cut pat) result = none := by
  obtain ⟨nsub, -, hnsub, hsolve⟩ := solve_of_match h result
  have heq : nsub = subMax := Option.some.inj (hnsub.symm.trans hsub)
  have hnone : (List.range (nsub + 1)).foldlM (storeMatch (cut inp) r) (RegRet.executed true) = none :=
    storeMatches_of_not_lt r (j := subMax) (by simp [heq]) (by simp [RegRet.executed])
  rw [hsolve, hnone]
  rfl

lemma solve_of_stored {r : RegMatch (cut inp).length} (h : lib.report inp pat = some (some r))
    (hsub : lib.subexpressions pat ≠ some subMax) (result : Text) :
    ∃ ret, solveRegularExpression lib (cut inp) (cut pat) result = some ret ∧ ret.error = false ∧
      ret.solved = true ∧ ret.matchStr.getD 0 [] = matchedText (cut inp) (some r.whole) := by
  obtain ⟨nsub, hle, hnsub, hsolve⟩ := solve_of_match h result
  have hlt : nsub < subMax := by
    have hne : nsub ≠ subMax := fun heq => hsub (heq ▸ hnsub)
    omega
  obtain ⟨stored, hfold, herror, hsolved, hfirst⟩ := storeMatches_executed r hlt
  refine ⟨{ stored with resultStr := substitute stored.matchStr result }, ?_, herror, hsolved, hfirst⟩
  rw [hsolve, hfold]
  rfl

end Outcomes

/-! ### The position that is reported -/

section Position

variable (lib : RegexLib) (inp pat : Text)

/-- The value of `regexppos` is the interval `regexec` reports, and empty when it reports none. -/
def PositionReported : Prop :=
  (∀ r, lib.report inp pat = some (some r) → sRegexppos lib (some inp) (some pat) =
    some (list [integer (Int64.ofNat r.whole.so), integer (Int64.ofNat (r.whole.eo - r.whole.so))])) ∧
  (sRegexppos lib (some inp) (some pat) = some (list []) ↔ lib.report inp pat = some none)

/-- No earlier part of the string is the same text as what was matched. -/
def FirstOccurrence (r : RegMatch (cut inp).length) : Prop :=
  ∀ i < r.whole.so, ¬matchedText (cut inp) (some r.whole) <+: inp.drop i

variable {lib inp pat}

lemma length_matchedText {input : Text} (w : Interval input.length) :
    (matchedText input (some w)).length = w.eo - w.so := by
  have hle := w.eo_le
  have hso := w.so_le
  simp only [matchedText, substr, List.length_take, List.length_drop]
  omega

lemma matchedText_prefix (r : RegMatch (cut inp).length) :
    matchedText (cut inp) (some r.whole) <+: inp.drop r.whole.so := by
  have hcut : cut inp <+: inp := List.takeWhile_prefix _
  exact (List.take_prefix _ _).trans (hcut.drop r.whole.so)

lemma integer_ofNat_inj {a b : Nat} (ha : a < 2 ^ 31) (hb : b < 2 ^ 31)
    (h : integer (Int64.ofNat a) = integer (Int64.ofNat b)) : a = b := by
  have hint := congrArg Int64.toInt (YCPValue.integer.inj h)
  rw [Int64.toInt_ofNat_of_lt (by omega), Int64.toInt_ofNat_of_lt (by omega)] at hint
  exact_mod_cast hint

lemma sRegexppos_of_stored {r : RegMatch (cut inp).length} (h : lib.report inp pat = some (some r))
    (hsub : lib.subexpressions pat ≠ some subMax) :
    sRegexppos lib (some inp) (some pat) =
      some (list [findInteger (find inp (matchedText (cut inp) (some r.whole))),
        integer (Int64.ofNat (r.whole.eo - r.whole.so))]) := by
  obtain ⟨ret, hsolve, herror, hsolved, hfirst⟩ := solve_of_stored h hsub []
  simp only [sRegexppos, hsolve, Option.bind_eq_bind, Option.bind_some, herror, hsolved, hfirst,
    length_matchedText, Bool.false_eq_true, if_false, if_true]

/-- The text is found where it was matched exactly when that is its first occurrence. -/
lemma findInteger_eq_iff (r : RegMatch (cut inp).length) :
    findInteger (find inp (matchedText (cut inp) (some r.whole))) = integer (Int64.ofNat r.whole.so) ↔
      FirstOccurrence inp r := by
  have hprefix := matchedText_prefix r
  have hso : r.whole.so < 2 ^ 31 := Nat.lt_of_le_of_lt r.whole.so_le r.whole.eo_lt
  constructor
  · intro heq
    obtain ⟨k, hk⟩ : ∃ k, find inp (matchedText (cut inp) (some r.whole)) = some k := by
      rw [← Option.isSome_iff_exists, find_isSome_iff]
      exact hprefix.isInfix.trans (List.drop_suffix _ _).isInfix
    have hfirst := (find_eq_some_iff _ _ _).mp hk
    have hle : k ≤ r.whole.so := by
      by_contra hlt
      exact hfirst.2 r.whole.so (by omega) hprefix
    rw [hk, findInteger] at heq
    rw [integer_ofNat_inj (by omega) hso heq] at hfirst
    exact hfirst.2
  · intro hfirst
    rw [(find_eq_some_iff _ _ _).mpr ⟨ hprefix, hfirst⟩, findInteger]

variable (lib inp pat)

/-- `regexppos` reports the match exactly if the pattern leaves room for its subexpressions and the
text it matched has no earlier occurrence. -/
theorem positionReported_iff :
    PositionReported lib inp pat ↔ ∀ r, lib.report inp pat = some (some r) →
      lib.subexpressions pat ≠ some subMax ∧ FirstOccurrence inp r := by
  constructor
  · intro hreported r hr
    have hvalue := hreported.1 r hr
    have hsub : lib.subexpressions pat ≠ some subMax := by
      intro hsub
      simp [sRegexppos, solve_of_overrun hr hsub] at hvalue
    refine ⟨hsub, (findInteger_eq_iff r).mp ?_⟩
    rw [sRegexppos_of_stored hr hsub] at hvalue
    injection hvalue with hlist
    injection hlist with hcons
    exact (List.cons.inj hcons).1
  · intro hall
    refine ⟨?_, ?_⟩
    · intro r hr
      obtain ⟨hsub, hfirst⟩ := hall r hr
      rw [sRegexppos_of_stored hr hsub, (findInteger_eq_iff r).mpr hfirst]
    · cases hreport : lib.report inp pat with
      | none =>
        obtain ⟨ret, hsolve, herror⟩ := solve_of_not_called hreport []
        simp [sRegexppos, hsolve, herror]
      | some reported =>
        cases reported with
        | none => simp [sRegexppos, solve_of_no_match hreport, RegRet.executed]
        | some r =>
          have hsub := (hall r hreport).1
          simp [sRegexppos_of_stored hreport hsub]

end Position

/-! ### An anchor -/

/-- The C library as far as the pattern `$` goes. -/
def dollarLib : RegexLib where
  Compiled := Unit
  regcomp pattern := if pattern = [36] then .ok () else .error []
  reNsub _ := 0
  regexec _ input :=
    if h : input.length < 2 ^ 31 then
      some ⟨⟨input.length, input.length, Nat.le_refl _, Nat.le_refl _, h⟩, fun _ => none⟩
    else none

/-- `regexppos ("abc", "$")` -/
theorem position_not_reported : ¬∀ lib inp pat, PositionReported lib inp pat := by
  intro h
  have hdollar := (h dollarLib [97, 98, 99] [36]).1
    ⟨⟨3, 3, Nat.le_refl _, Nat.le_refl _, by decide⟩, fun _ => none⟩ rfl
  have hfirst : findInteger (some 0) = integer 3 := by
    injection hdollar with hlist
    injection hlist with hcons
    exact (List.cons.inj hcons).1
  cases hfirst

end YastCore
