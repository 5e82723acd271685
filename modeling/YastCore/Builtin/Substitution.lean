import YastCore.Builtin.Regexp

/-!
# Substituting the parts of a match

What `solve_regular_expression` makes of its template, and the subscripts it uses on the way: the
two arrays for the submatches, the test on the number of subexpressions and the digits of the
template have sizes of their own.
-/

namespace YastCore

open CharString YCPValue

/-! ### What a template stands for -/

def isReference (c d : UInt8) : Prop := c = 92 ∧ 49 ≤ d ∧ d ≤ 57

instance (c d : UInt8) : Decidable (isReference c d) := inferInstanceAs (Decidable (_ ∧ _ ∧ _))

/-- The text a template stands for, `part i` being the text of the submatch `i`. -/
inductive Expands (part : Nat → Text) : Text → Text → Prop
  | done : Expands part [] []
  | reference {c d : UInt8} {rest out : Text} (h : isReference c d) (hrest : Expands part rest out) :
      Expands part (c :: d :: rest) (part (d.toNat - 48) ++ out)
  | copy {c : UInt8} {rest out : Text} (h : ∀ d ∈ rest.head?, ¬isReference c d)
      (hrest : Expands part rest out) : Expands part (c :: rest) (c :: out)

/-! ### The two cursors -/

/-- `strchr (bspos, '\\')` -/
def strchrBackslash (result : Text) (bspos : Nat) : Option Nat :=
  findFirst (fun c => c == 92) result bspos

/-- The loop over the backslashes of `result` with its two cursors: the text before `done` has been
dealt with. Each turn that goes on moves `bspos`, and `fuel` bounds the turns. -/
def substituteFrom (matchStr : List Text) (result : Text) : Nat → Nat → Nat → Text → Option Text
  | 0, _, _, _ => none
  | fuel + 1, done, bspos, resultStr =>
    match strchrBackslash result bspos with
    | none => some (resultStr ++ result.drop done)
    | some pos =>
      -- the NUL behind the text is not a digit either
      if 49 ≤ result.getD (pos + 1) 0 ∧ result.getD (pos + 1) 0 ≤ 57 then
        substituteFrom matchStr result fuel (pos + 2) (pos + 2)
          (resultStr ++ substr result done (pos - done) ++
            matchStr.getD ((result.getD (pos + 1) 0).toNat - 48) [])
      else substituteFrom matchStr result fuel done (pos + 1) resultStr

/-! ### The subscripts -/

inductive Subscript
  | matchptr (i : Nat)
  | matchStr (i : Nat)
  deriving DecidableEq, Repr

/-- The arrays as they are declared, `regmatch_t matchptr[SUB_MAX + 1]` and `string match_str[SUB_MAX]`. -/
def Subscript.InBounds : Subscript → Prop
  | .matchptr i => i < subMax + 1
  | .matchStr i => i < subMax

/-- The digits that subscript `match_str` while the template is copied. -/
def templateSubscripts : Text → List Subscript
  | [] => []
  | [_] => []
  | c :: d :: rest =>
    if isReference c d then .matchStr (d.toNat - 48) :: templateSubscripts rest
    else templateSubscripts (d :: rest)

/-- The subscripts of one call: `regexec` is given `re_nsub + 1` places of `matchptr`, and after a
match the loop over the subexpressions reads each of them and writes `match_str` at the same index. -/
def subscripts (lib : RegexLib) (inp pat result : Text) : List Subscript :=
  match lib.report inp pat, lib.subexpressions pat with
  | some none, some nsub => (List.range (nsub + 1)).map .matchptr
  | some (some _), some nsub =>
    (List.range (nsub + 1)).map .matchptr ++
      (List.range (min nsub subMax + 1)).flatMap (fun i => [.matchptr i, .matchStr i]) ++
      templateSubscripts result
  | _, _ => []

/-! ### The template -/

lemma substitute_cons_cons (matchStr : List Text) (c d : UInt8) (rest : Text) :
    substitute matchStr (c :: d :: rest) =
      if isReference c d then matchStr.getD (d.toNat - 48) [] ++ substitute matchStr rest
      else c :: substitute matchStr (d :: rest) := by
  rw [substitute]
  rfl

/-- The solver's copy of a template is what the template stands for. -/
lemma expands_substitute (matchStr : List Text) (result : Text) :
    Expands (fun i => matchStr.getD i []) result (substitute matchStr result) := by
  induction result using substitute.induct with
  | case1 => exact .done
  | case2 c => exact .copy (by simp) .done
  | case3 c d rest h ih =>
    have hreference : isReference c d := h
    rw [substitute_cons_cons, if_pos hreference]
    exact .reference hreference ih
  | case4 c d rest h ih =>
    have hcopy : ¬isReference c d := h
    rw [substitute_cons_cons, if_neg hcopy]
    exact .copy (by simpa using hcopy) ih

/-- A template stands for one text. -/
lemma Expands.unique {part : Nat → Text} {result a b : Text} (ha : Expands part result a)
    (hb : Expands part result b) : a = b := by
  induction ha generalizing b with
  | done =>
    cases hb
    rfl
  | reference h hrest ih =>
    cases hb with
    | reference h' hrest' => rw [ih hrest']
    | copy h' hrest' => exact absurd h (h' _ rfl)
  | copy h hrest ih =>
    cases hb with
    | reference h' hrest' => exact absurd h' (h _ rfl)
    | copy h' hrest' => rw [ih hrest']

lemma Expands.congr {part part' : Nat → Text} {result out : Text} (h : Expands part result out)
    (heq : ∀ i, 1 ≤ i → i ≤ 9 → part i = part' i) : Expands part' result out := by
  induction h with
  | done => exact .done
  | @reference c d rest out h hrest ih =>
    have hlow : 49 ≤ d.toNat := UInt8.le_iff_toNat_le.mp h.2.1
    have hhigh : d.toNat ≤ 57 := UInt8.le_iff_toNat_le.mp h.2.2
    rw [heq (d.toNat - 48) (by omega) (by omega)]
    exact .reference h ih
  | copy h hrest ih => exact .copy h ih

lemma templateSubscripts_inBounds (result : Text) : ∀ k ∈ templateSubscripts result, k.InBounds := by
  induction result using templateSubscripts.induct with
  | case1 => simp [templateSubscripts]
  | case2 c => simp [templateSubscripts]
  | case3 c d rest h ih =>
    intro k hk
    rw [templateSubscripts, if_pos h] at hk
    rcases List.mem_cons.mp hk with rfl | hk
    · have hhigh : d.toNat ≤ 57 := UInt8.le_iff_toNat_le.mp h.2.2
      simp only [Subscript.InBounds, subMax]
      omega
    · exact ih k hk
  | case4 c d rest h ih =>
    intro k hk
    rw [templateSubscripts, if_neg h] at hk
    exact ih k hk

/-! ### The cursors and the template -/

lemma substitute_cons_of_ne (matchStr : List Text) {c : UInt8} (hc : c ≠ 92) (rest : Text) :
    substitute matchStr (c :: rest) = c :: substitute matchStr rest := by
  cases rest with
  | nil => rfl
  | cons d rest => rw [substitute_cons_cons, if_neg fun h => hc h.1]

lemma substitute_append (matchStr : List Text) {plain : Text} (hplain : ∀ c ∈ plain, c ≠ 92) (rest : Text) :
    substitute matchStr (plain ++ rest) = plain ++ substitute matchStr rest := by
  induction plain with
  | nil => rfl
  | cons c plain ih =>
    rw [List.cons_append, substitute_cons_of_ne matchStr (hplain c List.mem_cons_self),
      ih fun x hx => hplain x (List.mem_cons_of_mem c hx)]
    rfl

lemma substitute_of_no_backslash (matchStr : List Text) {plain : Text} (hplain : ∀ c ∈ plain, c ≠ 92) :
    substitute matchStr plain = plain := by
  simpa [substitute] using substitute_append matchStr hplain []

/-- The template at the next backslash. -/
lemma strchrBackslash_spec (result : Text) (bspos : Nat) :
    (strchrBackslash result bspos = none ∧ ∀ c ∈ result.drop bspos, c ≠ 92) ∨
      ∃ plain rest, strchrBackslash result bspos = some (bspos + plain.length) ∧
        result.drop bspos = plain ++ 92 :: rest ∧ ∀ c ∈ plain, c ≠ 92 := by
  unfold strchrBackslash findFirst
  cases hfind : (result.drop bspos).findIdx? (fun c => c == 92) with
  | none => exact .inl ⟨rfl, by simpa [List.findIdx?_eq_none_iff] using hfind⟩
  | some i =>
    obtain ⟨plain, c, rest, hdrop, rfl, hc, hplain⟩ := split_of_findIdx?_eq_some hfind
    obtain rfl : c = 92 := by simpa using hc
    exact .inr ⟨plain, rest, by simp [Nat.add_comm], hdrop, by simpa using hplain⟩

lemma substr_to_drop (result : Text) {start stop : Nat} (h : start ≤ stop) {plain rest : Text}
    (hdrop : result.drop stop = plain ++ rest) :
    substr result start (stop + plain.length - start) = substr result start (stop - start) ++ plain := by
  have hlength : stop + plain.length - start = stop - start + plain.length := by omega
  have hstop : start + (stop - start) = stop := by omega
  rw [substr, hlength, List.take_add, List.drop_drop, hstop, hdrop, List.take_left]
  rfl

/-- What the cursors have collected, and what is between them, is the copy so far. -/
lemma substituteFrom_eq (matchStr : List Text) (result : Text) (fuel : Nat) {done bspos : Nat} (hle : done ≤ bspos)
    (hend : bspos ≤ result.length) (hfuel : result.length < fuel + bspos) (resultStr : Text) :
    substituteFrom matchStr result fuel done bspos resultStr =
      some (resultStr ++ substr result done (bspos - done) ++ substitute matchStr (result.drop bspos)) := by
  induction fuel generalizing done bspos resultStr with
  | zero => omega
  | succ fuel ih =>
    rw [substituteFrom]
    rcases strchrBackslash_spec result bspos with ⟨hnone, hplain⟩ | ⟨plain, rest, hsome, hdrop, hplain⟩
    · rw [hnone, substitute_of_no_backslash matchStr hplain]
      have hrest : substr result done (bspos - done) ++ result.drop bspos = result.drop done := by
        have hbspos : result.drop bspos = (result.drop done).drop (bspos - done) := by
          rw [List.drop_drop, Nat.add_sub_cancel' hle]
        rw [substr, hbspos, List.take_append_drop]
      simp only [List.append_assoc, hrest]
    · rw [hsome, hdrop, substitute_append matchStr hplain]
      have hlength : result.length = bspos + plain.length + (rest.length + 1) := by
        have hlen := congrArg List.length hdrop
        simp only [List.length_drop, List.length_append, List.length_cons] at hlen
        omega
      have hafter : result.drop (bspos + plain.length + 1) = rest := by
        have hassoc : plain ++ 92 :: rest = (plain ++ [92]) ++ rest := by simp
        rw [Nat.add_assoc, ← List.drop_drop, hdrop, hassoc]
        simp
      have hnext : result.getD (bspos + plain.length + 1) 0 = rest.headD 0 := by
        rw [← hafter, List.getD_eq_getElem?_getD, List.headD_eq_head?_getD, List.head?_drop]
      simp only [hnext]
      by_cases hdigit : 49 ≤ rest.headD 0 ∧ rest.headD 0 ≤ 57
      · cases rest with
        | nil => exact absurd hdigit (by decide)
        | cons d rest =>
          have hlen : result.length = bspos + plain.length + (rest.length + 2) := hlength
          have hbehind : result.drop (bspos + plain.length + 2) = rest := by
            rw [← Nat.add_assoc _ 1 1, ← List.drop_drop, hafter]
            rfl
          have hreference : isReference 92 d := ⟨rfl, hdigit⟩
          rw [if_pos hdigit, ih (Nat.le_refl _) (by omega) (by omega), hbehind, substr_to_drop result hle hdrop,
            substitute_cons_cons, if_pos hreference]
          simp [substr]
      · have hcopy : substitute matchStr (92 :: rest) = 92 :: substitute matchStr rest := by
          cases rest with
          | nil => rfl
          | cons d rest => rw [substitute_cons_cons, if_neg fun h => hdigit h.2]
        have hlonger : substr result done (bspos + plain.length + 1 - done) =
            substr result done (bspos - done) ++ (plain ++ [92]) := by
          have hdrop' : result.drop bspos = (plain ++ [92]) ++ rest := by simpa using hdrop
          rw [← substr_to_drop result hle hdrop']
          simp [Nat.add_assoc]
        rw [if_neg hdigit, ih (by omega) (by omega) (by omega), hafter, hlonger, hcopy]
        simp

/-- The cursors make the copy. -/
theorem substituteFrom_start (matchStr : List Text) (result : Text) :
    substituteFrom matchStr result (result.length + 1) 0 0 [] = some (substitute matchStr result) := by
  rw [substituteFrom_eq matchStr result _ (Nat.le_refl 0) (Nat.zero_le _) (by omega)]
  simp [substr]

/-! ### The submatches -/

section Submatches

variable {input : Text} (m : RegMatch input.length)

/-- The loop over the subexpressions stores each of them at its own place and leaves the rest. -/
lemma storeMatches_spec {l : List Nat} {ret : RegRet} (h : ∀ i ∈ l, i < ret.matchStr.length) :
    ∃ ret', l.foldlM (storeMatch input m) ret = some ret' ∧ ret'.error = ret.error ∧ ret'.solved = ret.solved ∧
      ∀ j, ret'.matchStr.getD j [] = if j ∈ l then matchedText input (m.at j) else ret.matchStr.getD j [] := by
  induction l generalizing ret with
  | nil => exact ⟨ret, rfl, rfl, rfl, by simp⟩
  | cons i l ih =>
    have hi := h i List.mem_cons_self
    let next : RegRet := { ret with matchStr := ret.matchStr.set i (matchedText input (m.at i)), matchNb := i }
    have hnext : ∀ j ∈ l, j < next.matchStr.length := by simpa [next] using fun j hj => h j (List.mem_cons_of_mem i hj)
    obtain ⟨ret', hrun, herror, hsolved, hstored⟩ := ih hnext
    refine ⟨ret', ?_, herror, hsolved, ?_⟩
    · rw [List.foldlM_cons, storeMatch_of_lt m hi]
      exact hrun
    · intro j
      rw [hstored j]
      by_cases hj : j ∈ l
      · rw [if_pos hj, if_pos (List.mem_cons_of_mem i hj)]
      · rw [if_neg hj]
        by_cases hji : j = i
        · subst hji
          rw [if_pos List.mem_cons_self, List.getD_eq_getElem?_getD, List.getElem?_set_self hi]
          rfl
        · rw [if_neg (by simp [hj, hji]), List.getD_eq_getElem?_getD, List.getElem?_set_ne (Ne.symm hji),
            ← List.getD_eq_getElem?_getD]

/-- The text of a submatch: empty if it is unset or the pattern has none of that number. -/
def submatch (nsub i : Nat) : Text := if i ≤ nsub then matchedText input (m.part i) else []

end Submatches

/-! ### The property -/

section Substitution

variable (lib : RegexLib) (inp pat result : Text)

/-- A call uses its arrays inside their sizes, and where it reports a match the result is the
template with the submatches put in. -/
structure SubstitutionInBounds : Prop where
  inBounds : ∀ k ∈ subscripts lib inp pat (cut result), k.InBounds
  expanded : ∀ r nsub, lib.report inp pat = some (some r) → lib.subexpressions pat = some nsub →
    ∃ ret, solveRegularExpression lib (cut inp) (cut pat) (cut result) = some ret ∧
      ret.error = false ∧ ret.solved = true ∧ Expands (submatch r nsub) (cut result) ret.resultStr
  reported : ∀ ret, solveRegularExpression lib (cut inp) (cut pat) (cut result) = some ret →
    ret.error = false → ret.solved = true → ∃ r, lib.report inp pat = some (some r)

variable {lib inp pat result}

lemma subexpressions_le {r : Option (RegMatch (cut inp).length)} {nsub : Nat}
    (hreport : lib.report inp pat = some r) (hnsub : lib.subexpressions pat = some nsub) : nsub ≤ subMax := by
  unfold RegexLib.report at hreport
  unfold RegexLib.subexpressions at hnsub
  cases hcomp : lib.regcomp (cut pat) with
  | error message => simp [hcomp] at hreport
  | ok compiled =>
    rw [hcomp] at hreport hnsub
    obtain rfl : lib.reNsub compiled = nsub := by simpa [Except.toOption] using hnsub
    by_contra hlt
    simp [not_le.mp hlt] at hreport

lemma subscripts_inBounds
    (h : ∀ r, lib.report inp pat = some (some r) → lib.subexpressions pat ≠ some subMax) :
    ∀ k ∈ subscripts lib inp pat (cut result), k.InBounds := by
  have hmatchptr {nsub : Nat} (hle : nsub ≤ subMax) :
      ∀ k ∈ (List.range (nsub + 1)).map Subscript.matchptr, k.InBounds := by
    intro k hk
    obtain ⟨i, hi, rfl⟩ := List.mem_map.mp hk
    exact Nat.lt_of_lt_of_le (List.mem_range.mp hi) (Nat.succ_le_succ hle)
  intro k hk
  unfold subscripts at hk
  split at hk
  · next nsub hreport hnsub => exact hmatchptr (subexpressions_le hreport hnsub) k hk
  · next r nsub hreport hnsub =>
    have hle := subexpressions_le hreport hnsub
    have hne : nsub ≠ subMax := fun heq => h r hreport (heq ▸ hnsub)
    simp only [List.mem_append, List.mem_flatMap, List.mem_range, List.mem_cons, List.not_mem_nil, or_false] at hk
    rcases hk with (hk | ⟨i, hi, rfl | rfl⟩) | hk
    · exact hmatchptr hle k hk
    · simp only [Subscript.InBounds]
      omega
    · simp only [Subscript.InBounds]
      omega
    · exact templateSubscripts_inBounds _ k hk
  · simp at hk

lemma submatch_stored {input : Text} (r : RegMatch input.length) {nsub : Nat} {stored : RegRet}
    (hstored : ∀ j, stored.matchStr.getD j [] =
      if j ∈ List.range (nsub + 1) then matchedText input (r.at j)
      else (RegRet.executed true).matchStr.getD j []) {i : Nat} (hi : 1 ≤ i) :
    stored.matchStr.getD i [] = submatch r nsub i := by
  have hat : r.at i = r.part i := if_neg (by omega)
  have hblank : (RegRet.executed true).matchStr.getD i [] = [] := by
    rw [RegRet.executed, List.getD_eq_getElem?_getD, List.getElem?_replicate]
    split <;> rfl
  rw [hstored i, hat, hblank, submatch]
  simp only [List.mem_range, Nat.lt_succ_iff]

/-- Where the subexpressions of a match have their places, the result is the template. -/
lemma solve_expands {r : RegMatch (cut inp).length} {nsub : Nat} (hreport : lib.report inp pat = some (some r))
    (hnsub : lib.subexpressions pat = some nsub) (hne : nsub ≠ subMax) :
    ∃ ret, solveRegularExpression lib (cut inp) (cut pat) result = some ret ∧
      ret.error = false ∧ ret.solved = true ∧ Expands (submatch r nsub) result ret.resultStr := by
  obtain ⟨n, hle, hn, hsolve⟩ := solve_of_match hreport result
  obtain rfl : n = nsub := Option.some.inj (hn.symm.trans hnsub)
  have hbounds : ∀ i ∈ List.range (n + 1), i < (RegRet.executed true).matchStr.length := by
    intro i hi
    have hlt := List.mem_range.mp hi
    simp only [RegRet.executed, List.length_replicate]
    omega
  obtain ⟨stored, hrun, herror, hsolved, hstored⟩ := storeMatches_spec r hbounds
  refine ⟨{ stored with resultStr := substitute stored.matchStr result }, ?_, herror, hsolved, ?_⟩
  · rw [hsolve, hrun]
    rfl
  · exact (expands_substitute stored.matchStr result).congr fun i hi _ => submatch_stored r hstored hi

lemma report_of_solved {ret : RegRet} (hsolve : solveRegularExpression lib (cut inp) (cut pat) result = some ret)
    (herror : ret.error = false) (hsolved : ret.solved = true) : ∃ r, lib.report inp pat = some (some r) := by
  cases hreport : lib.report inp pat with
  | none =>
    obtain ⟨ret', hsolve', herror'⟩ := solve_of_not_called hreport result
    obtain rfl : ret = ret' := Option.some.inj (hsolve.symm.trans hsolve')
    simp [herror] at herror'
  | some reported =>
    cases reported with
    | none =>
      rw [solve_of_no_match hreport] at hsolve
      obtain rfl := Option.some.inj hsolve
      simp [RegRet.executed] at hsolved
    | some r => exact ⟨r, rfl⟩

variable (lib inp pat result)

/-- The one call that leaves the arrays is a match of a pattern with as many subexpressions as
`match_str` has places. -/
theorem substitutionInBounds_iff :
    SubstitutionInBounds lib inp pat result ↔
      ∀ r, lib.report inp pat = some (some r) → lib.subexpressions pat ≠ some subMax := by
  constructor
  · intro h r hreport hsub
    have hmem : Subscript.matchStr subMax ∈ subscripts lib inp pat (cut result) := by
      simp [subscripts, hreport, hsub]
    exact Nat.lt_irrefl _ (h.inBounds _ hmem)
  · intro h
    refine ⟨subscripts_inBounds h, ?_, ?_⟩
    · intro r nsub hreport hnsub
      exact solve_expands hreport hnsub fun heq => h r hreport (heq ▸ hnsub)
    · intro ret hsolve herror hsolved
      exact report_of_solved hsolve herror hsolved

end Substitution

/-- The first byte of a text, if there is one. -/
def firstByte (input : Text) : Interval input.length :=
  ⟨0, min 1 input.length, Nat.zero_le _, Nat.min_le_right _ _, by omega⟩

/-- The C library as far as the pattern `((((((((((a))))))))))` and a text that starts with `a` go. -/
def tenGroupsLib : RegexLib where
  Compiled := Unit
  regcomp _ := .ok ()
  reNsub _ := 10
  regexec _ input :=
    if input.head? = some 97 then
      some ⟨firstByte input, fun i => if i ≤ 10 then some (firstByte input) else none⟩
    else none

/-- `regexpsub ("a", "((((((((((a))))))))))", "\1")` -/
theorem tenGroups_out_of_bounds : ¬∀ lib inp pat result, SubstitutionInBounds lib inp pat result := by
  intro h
  let pat : Text := List.replicate 10 40 ++ 97 :: List.replicate 10 41
  have hbounds := (h tenGroupsLib [97] pat [92, 49]).inBounds (.matchStr 10) (by decide)
  exact absurd hbounds (by simp [Subscript.InBounds, subMax])

end YastCore
