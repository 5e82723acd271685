import Mathlib.Data.List.Basic
import Mathlib.Data.List.Infix
import Mathlib.Tactic.Common

/-!
# Character strings

The searching and cutting operations of `std::basic_string`, over any type of characters. A position
that is `npos` is `none`. They commute with every injective recoding of the characters.
-/

namespace CharString

variable {α β : Type}

/-- The first position at which `t` occurs. -/
def find [DecidableEq α] : List α → List α → Option Nat
  | [], t => if t.isEmpty then some 0 else none
  | c :: s, t => if t.isPrefixOf (c :: s) then some 0 else (find s t).map (· + 1)

/-- The first position from `pos` on of a character with the property. -/
def findFirst (p : α → Bool) (s : List α) (pos : Nat) : Option Nat :=
  ((s.drop pos).findIdx? p).map (· + pos)

/-- The last position of a character with the property. -/
def findLast (p : α → Bool) (s : List α) : Option Nat :=
  (s.reverse.findIdx? p).map fun i => s.length - 1 - i

def findFirstOf [DecidableEq α] (s chars : List α) (pos : Nat) : Option Nat :=
  findFirst (fun c => c ∈ chars) s pos

def findFirstNotOf [DecidableEq α] (s chars : List α) (pos : Nat) : Option Nat :=
  findFirst (fun c => c ∉ chars) s pos

def findLastOf [DecidableEq α] (s chars : List α) : Option Nat := findLast (fun c => c ∈ chars) s

def findLastNotOf [DecidableEq α] (s chars : List α) : Option Nat := findLast (fun c => c ∉ chars) s

def substr (s : List α) (start length : Nat) : List α := (s.drop start).take length

/-- The string without what stands from `pos` to before `stop`. -/
def eraseTo (s : List α) (pos : Nat) : Option Nat → List α
  | none => s.take pos
  | some stop => s.take pos ++ s.drop stop

/-- Erases run after run of characters with the property, from left to right. -/
def eraseRuns (p : α → Bool) : Nat → List α → Nat → Option (List α)
  | 0, _, _ => none
  | fuel + 1, s, pos =>
    match findFirst p s pos with
    | none => some s
    | some pos' => eraseRuns p fuel (eraseTo s pos' (findFirst (fun c => !p c) s pos')) pos'

/-! ### Occurrences -/

lemma find_isSome_iff [DecidableEq α] (s t : List α) : (find s t).isSome = true ↔ t <:+: s := by
  induction s with
  | nil =>
    rw [find]
    cases t <;> simp
  | cons c s ih =>
    rw [find]
    by_cases hprefix : t.isPrefixOf (c :: s) = true
    · rw [if_pos hprefix]
      have hp : t <+: c :: s := List.isPrefixOf_iff_prefix.mp hprefix
      simp [hp.isInfix]
    · rw [if_neg hprefix, Option.isSome_map, ih, List.infix_cons_iff]
      have hp : ¬t <+: c :: s := fun h => hprefix (List.isPrefixOf_iff_prefix.mpr h)
      simp [hp]

/-- The position found is the first at which the string continues with `t`. -/
lemma find_eq_some_iff [DecidableEq α] (s t : List α) (k : Nat) :
    find s t = some k ↔ t <+: s.drop k ∧ ∀ i < k, ¬t <+: s.drop i := by
  induction s generalizing k with
  | nil =>
    rw [find]
    by_cases ht : t = []
    · subst ht
      cases k with
      | zero => simp
      | succ k =>
        simp only [List.isEmpty_nil, if_true, Option.some.injEq, List.nil_prefix, not_true]
        exact ⟨fun h => by omega, fun h => (h.2 0 (Nat.succ_pos k)).elim⟩
    · simp [ht]
  | cons c s ih =>
    rw [find]
    by_cases hprefix : t <+: c :: s
    · rw [if_pos (List.isPrefixOf_iff_prefix.mpr hprefix)]
      cases k with
      | zero => simpa using hprefix
      | succ k =>
        refine iff_of_false (by simp) ?_
        rintro ⟨-, hno⟩
        exact hno 0 (Nat.succ_pos k) hprefix
    · rw [if_neg fun h => hprefix (List.isPrefixOf_iff_prefix.mp h)]
      cases k with
      | zero => simpa using hprefix
      | succ k =>
        have hmap : (find s t).map (· + 1) = some (k + 1) ↔ find s t = some k := by simp
        rw [hmap, ih, List.drop_succ_cons]
        refine and_congr_right fun _ => ⟨?_, fun h i hi => h (i + 1) (by omega)⟩
        intro h i hi
        cases i with
        | zero => exact hprefix
        | succ i => exact h i (by omega)

/-! ### Erasing -/

lemma findFirst_append (p : α → Bool) (a b : List α) :
    findFirst p (a ++ b) a.length = (b.findIdx? p).map (· + a.length) := by
  rw [findFirst, List.drop_left]

/-- A string at the first of its characters with a property. -/
lemma split_of_findIdx?_eq_some {p : α → Bool} {s : List α} {i : Nat} (h : s.findIdx? p = some i) :
    ∃ a c b, s = a ++ c :: b ∧ a.length = i ∧ p c = true ∧ ∀ x ∈ a, p x = false := by
  induction s generalizing i with
  | nil => simp at h
  | cons c s ih =>
    rw [List.findIdx?_cons] at h
    by_cases hc : p c = true
    · have hi : i = 0 := by simpa [hc, eq_comm] using h
      exact ⟨[], c, s, rfl, hi.symm, hc, by simp⟩
    · rw [if_neg hc] at h
      obtain ⟨j, hj, rfl⟩ := Option.map_eq_some_iff.mp h
      obtain ⟨a, d, b, rfl, hlen, hd, ha⟩ := ih hj
      refine ⟨c :: a, d, b, rfl, by simp [hlen], hd, ?_⟩
      intro x hx
      rcases List.mem_cons.mp hx with rfl | hx
      · simpa using hc
      · exact ha x hx

/-! ### The last position -/

lemma findLast_append_cons {p : α → Bool} (a : List α) {c : α} (hc : p c = true) {b : List α}
    (hb : ∀ x ∈ b, p x = false) : findLast p (a ++ c :: b) = some a.length := by
  have hreverse : (a ++ c :: b).reverse = b.reverse ++ c :: a.reverse := by simp
  have hnone : b.reverse.findIdx? p = none := by simpa [List.findIdx?_eq_none_iff] using hb
  rw [findLast, hreverse, List.findIdx?_append, hnone, List.findIdx?_cons, if_pos hc]
  simp

lemma findLast_eq_none {p : α → Bool} {a : List α} (ha : ∀ x ∈ a, p x = false) : findLast p a = none := by
  have hnone : a.reverse.findIdx? p = none := by simpa [List.findIdx?_eq_none_iff] using ha
  rw [findLast, hnone]
  rfl

/-! ### Erasing runs -/

theorem eraseRuns_append (p : α → Bool) (fuel : Nat) (a b : List α) (hfuel : b.length < fuel) :
    eraseRuns p fuel (a ++ b) a.length = some (a ++ b.filter fun c => !p c) := by
  induction fuel generalizing a b with
  | zero => simp at hfuel
  | succ fuel ih =>
    rw [eraseRuns, findFirst_append]
    cases hfirst : b.findIdx? p with
    | none =>
      have hno : ∀ x ∈ b, p x = false := by simpa using hfirst
      have hfilter : b.filter (fun c => !p c) = b := by
        rw [List.filter_eq_self]
        simpa using hno
      simp [hfilter]
    | some i =>
      obtain ⟨b₁, c, b₂, rfl, rfl, hc, hb₁⟩ := split_of_findIdx?_eq_some hfirst
      have hkeep : b₁.filter (fun c => !p c) = b₁ := by
        rw [List.filter_eq_self]
        simpa using hb₁
      have hpos : b₁.length + a.length = (a ++ b₁).length := by
        rw [List.length_append, Nat.add_comm]
      simp only [Option.map_some]
      rw [hpos, ← List.append_assoc, findFirst_append]
      cases hnext : (c :: b₂).findIdx? fun c => !p c with
      | none =>
        have hall : ∀ x ∈ c :: b₂, p x = true := by simpa using hnext
        have hnil : (c :: b₂).filter (fun c => !p c) = [] := by
          rw [List.filter_eq_nil_iff]
          simpa using hall
        have herase : eraseTo (a ++ b₁ ++ c :: b₂) (a ++ b₁).length none = (a ++ b₁) ++ [] := by
          rw [eraseTo, List.take_left, List.append_nil]
        simp only [Option.map_none]
        rw [herase, ih (a ++ b₁) [] (by simp at hfuel ⊢; omega)]
        simp only [List.filter_append, hkeep, hnil]
        simp
      | some j =>
        obtain ⟨r, d, r', hr, rfl, hd, hrun⟩ := split_of_findIdx?_eq_some hnext
        have hnil : r.filter (fun c => !p c) = [] := by
          rw [List.filter_eq_nil_iff]
          simpa using hrun
        have hrpos : r ≠ [] := by
          rintro rfl
          simp only [List.nil_append, List.cons.injEq] at hr
          rw [← hr.1, hc] at hd
          simp at hd
        have herase : eraseTo (a ++ b₁ ++ c :: b₂) (a ++ b₁).length
            (some (r.length + (a ++ b₁).length)) = (a ++ b₁) ++ d :: r' := by
          rw [eraseTo, List.take_left, hr, ← List.append_assoc]
          congr 1
          have hlen : r.length + (a ++ b₁).length = (a ++ b₁ ++ r).length := by
            simp only [List.length_append]
            omega
          rw [hlen, List.drop_left]
        have hshort : (d :: r').length < fuel := by
          have hlen := congrArg List.length hr
          have hpos := List.length_pos_of_ne_nil hrpos
          simp only [List.length_append, List.length_cons] at hlen hfuel ⊢
          omega
        simp only [Option.map_some]
        rw [herase, ih (a ++ b₁) (d :: r') hshort, hr]
        simp only [List.filter_append, hkeep, hnil]
        simp

/-- With as much fuel as there are characters, what is left is all that has not the property. -/
theorem eraseRuns_eq_filter (p : α → Bool) (s : List α) :
    eraseRuns p (s.length + 1) s 0 = some (s.filter fun c => !p c) := by
  simpa using eraseRuns_append p (s.length + 1) [] s (Nat.lt_succ_self _)

/-! ### Joining -/

section Joining

variable {glue : List α}

lemma intercalate_cons (a : List α) (pieces : List (List α)) :
    glue.intercalate (a :: pieces) = a ++ pieces.flatMap (glue ++ ·) := by
  induction pieces generalizing a with
  | nil => simp
  | cons b pieces ih =>
    rw [List.intercalate_cons_cons, ih, List.flatMap_cons]
    simp

/-- Behind a first piece each further one brings its glue. -/
lemma intercalate_append {a : List (List α)} (ha : a ≠ []) (b : List (List α)) :
    glue.intercalate (a ++ b) = glue.intercalate a ++ b.flatMap (glue ++ ·) := by
  obtain ⟨p, a, rfl⟩ := List.exists_cons_of_ne_nil ha
  rw [List.cons_append, intercalate_cons, intercalate_cons, List.flatMap_append, List.append_assoc]

lemma flatMap_glue_eq_nil_iff {pieces : List (List α)} :
    pieces.flatMap (glue ++ ·) = [] ↔ pieces = [] ∨ glue = [] ∧ ∀ p ∈ pieces, p = [] := by
  cases pieces with
  | nil => simp
  | cons p pieces =>
    simp only [List.flatMap_eq_nil_iff, List.append_eq_nil_iff, List.cons_ne_nil, false_or]
    exact ⟨fun h => ⟨(h p List.mem_cons_self).1, fun q hq => (h q hq).2⟩, fun h q hq => ⟨h.1, h.2 q hq⟩⟩

/-- Nothing is joined, or a single empty piece, or nothing but empty texts. -/
lemma intercalate_eq_nil_iff {pieces : List (List α)} :
    glue.intercalate pieces = [] ↔
      pieces = [] ∨ pieces = [[]] ∨ glue = [] ∧ ∀ p ∈ pieces, p = [] := by
  cases pieces with
  | nil => simp
  | cons p pieces =>
    rw [intercalate_cons, List.append_eq_nil_iff, flatMap_glue_eq_nil_iff]
    simp only [List.cons_ne_nil, false_or, List.cons.injEq, List.forall_mem_cons]
    constructor
    · rintro ⟨hp, rfl | ⟨hglue, hall⟩⟩
      · exact .inl ⟨hp, rfl⟩
      · exact .inr ⟨hglue, hp, hall⟩
    · rintro (⟨hp, hpieces⟩ | ⟨hglue, hp, hall⟩)
      · exact ⟨hp, .inl hpieces⟩
      · exact ⟨hp, .inr ⟨hglue, hall⟩⟩

/-- As long as the glue only if that is all there is. -/
lemma length_flatMap_glue_eq_iff (hglue : glue ≠ []) {pieces : List (List α)} :
    (pieces.flatMap (glue ++ ·)).length = glue.length ↔ pieces = [[]] := by
  have hpos := List.length_pos_of_ne_nil hglue
  match pieces with
  | [] => simpa [eq_comm] using hglue
  | [p] => simp
  | p :: q :: pieces =>
    simp only [List.flatMap_cons, List.length_append, List.cons.injEq, List.cons_ne_nil, and_false, iff_false]
    omega

end Joining

/-! ### Recoding -/

lemma findFirst_map (f : α → β) (p : β → Bool) (s : List α) (pos : Nat) :
    findFirst p (s.map f) pos = findFirst (p ∘ f) s pos := by
  rw [findFirst, ← List.map_drop, List.findIdx?_map, findFirst]

lemma findLast_map (f : α → β) (p : β → Bool) (s : List α) :
    findLast p (s.map f) = findLast (p ∘ f) s := by
  rw [findLast, ← List.map_reverse, List.findIdx?_map, List.length_map, findLast]

section Recode

variable [DecidableEq α] [DecidableEq β] {f : α → β} (hf : Function.Injective f)

include hf

lemma isPrefixOf_map (s t : List α) : (t.map f).isPrefixOf (s.map f) = t.isPrefixOf s := by
  rw [Bool.eq_iff_iff, List.isPrefixOf_iff_prefix, List.isPrefixOf_iff_prefix]
  constructor
  · rintro ⟨u, hu⟩
    obtain ⟨a, b, hs, ha, -⟩ := List.map_eq_append_iff.mp hu.symm
    have hat : a = t := hf.list_map ha
    exact ⟨b, by rw [hs, hat]⟩
  · exact fun h => h.map f

lemma find_map (s t : List α) : find (s.map f) (t.map f) = find s t := by
  induction s with
  | nil => simp [find]
  | cons c s ih =>
    have hprefix := isPrefixOf_map hf (c :: s) t
    rw [List.map_cons] at hprefix
    rw [List.map_cons, find, find, ih, hprefix]

lemma mem_comp (chars : List α) :
    (fun c => decide (c ∈ chars.map f)) ∘ f = fun c => decide (c ∈ chars) := by
  funext c
  simp only [Function.comp_apply, List.mem_map_of_injective hf]

lemma not_mem_comp (chars : List α) :
    (fun c => decide (c ∉ chars.map f)) ∘ f = fun c => decide (c ∉ chars) := by
  funext c
  simp only [Function.comp_apply, List.mem_map_of_injective hf]

lemma findFirstOf_map (s chars : List α) (pos : Nat) :
    findFirstOf (s.map f) (chars.map f) pos = findFirstOf s chars pos := by
  rw [findFirstOf, findFirst_map, mem_comp hf, findFirstOf]

lemma findFirstNotOf_map (s chars : List α) (pos : Nat) :
    findFirstNotOf (s.map f) (chars.map f) pos = findFirstNotOf s chars pos := by
  rw [findFirstNotOf, findFirst_map, not_mem_comp hf, findFirstNotOf]

lemma findLastOf_map (s chars : List α) :
    findLastOf (s.map f) (chars.map f) = findLastOf s chars := by
  rw [findLastOf, findLast_map, mem_comp hf, findLastOf]

lemma findLastNotOf_map (s chars : List α) :
    findLastNotOf (s.map f) (chars.map f) = findLastNotOf s chars := by
  rw [findLastNotOf, findLast_map, not_mem_comp hf, findLastNotOf]

end Recode

lemma eraseRuns_map (f : α → β) (p : β → Bool) (s : List α) :
    eraseRuns p (s.length + 1) (s.map f) 0 =
      (eraseRuns (p ∘ f) (s.length + 1) s 0).map (List.map f) := by
  have hs := eraseRuns_eq_filter p (s.map f)
  rw [List.length_map] at hs
  rw [hs, eraseRuns_eq_filter, List.filter_map]
  rfl

end CharString
