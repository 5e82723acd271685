import Mathlib.Data.List.Count
import YastCore.Lib.StdOrder

/-!
# The algorithms on two sorted ranges

`std::merge`, `std::includes` and the four set operations walk two sorted ranges side by side. On ranges with
equivalent elements they are operations on multisets: what they promise is how often each element comes out.
-/

namespace StdOrder

variable {α : Type}

/-- What goes to the output: what the first or the second range has more of, and what both have. -/
structure Selection where
  first : Bool
  second : Bool
  both : Bool

namespace Selection

def difference : Selection := ⟨true, false, false⟩

def symmetricDifference : Selection := ⟨true, true, false⟩

def intersection : Selection := ⟨false, false, true⟩

def union : Selection := ⟨true, true, true⟩

/-- How often an element comes out that is in the ranges this often. -/
def count (s : Selection) (i j : Nat) : Nat :=
  (if s.first then i - j else 0) + (if s.second then j - i else 0) + if s.both then min i j else 0

variable (s : Selection) (i j : Nat)

lemma count_zero_right : s.count i 0 = if s.first then i else 0 := by
  simp [count]

lemma count_zero_left : s.count 0 j = if s.second then j else 0 := by
  simp [count]

lemma count_succ_succ : s.count (i + 1) (j + 1) = s.count i j + if s.both then 1 else 0 := by
  cases hs : s.both
  · simp [count, hs]
  · simp [count, hs]
    omega

end Selection

section Walks

variable (s : Selection) (less : Comparator α)

/-- An element that is selected, before the rest. -/
def emit (selected : Bool) (a : α) (rest : List α) : List α := if selected then a :: rest else rest

/-- The loop of the set operations. -/
def select : List α → List α → Option (List α)
  | [], m => some (if s.second then m else [])
  | a :: l, [] => some (if s.first then a :: l else [])
  | a :: l, b :: m =>
    (less a b).bind fun ab =>
      if ab then (select l (b :: m)).map (emit s.first a)
      else (less b a).bind fun ba =>
        if ba then (select (a :: l) m).map (emit s.second b)
        else (select l m).map (emit s.both a)
termination_by l m => l.length + m.length

/-- `std::merge`. Of equivalent elements those of the first range come first. -/
def merge : List α → List α → Option (List α)
  | [], m => some m
  | a :: l, [] => some (a :: l)
  | a :: l, b :: m =>
    (less b a).bind fun ba => if ba then (merge (a :: l) m).map (b :: ·) else (merge l (b :: m)).map (a :: ·)
termination_by l m => l.length + m.length

/-- `std::includes`. -/
def includes : List α → List α → Option Bool
  | _, [] => some true
  | [], _ :: _ => some false
  | a :: l, b :: m =>
    (less b a).bind fun ba =>
      if ba then some false
      else (less a b).bind fun ab => if ab then includes l (b :: m) else includes l m
termination_by l m => l.length + m.length

end Walks

/-! ### Sorted ranges -/

section Sorted

variable {lt : α → α → Prop} {a b x : α} {l m r : List α}

/-- No element is less than one before it. -/
abbrev Sorted (lt : α → α → Prop) (l : List α) : Prop := l.Pairwise fun a b => ¬lt b a

/-- How many elements are equivalent to this one. -/
def occurrences (lt : α → α → Prop) [DecidableRel lt] (x : α) (l : List α) : Nat :=
  l.countP fun a => decide (Equivalent lt a x)

variable [DecidableRel lt]

@[simp] lemma occurrences_nil : occurrences lt x [] = 0 := rfl

lemma occurrences_cons : occurrences lt x (a :: l) = occurrences lt x l + if Equivalent lt a x then 1 else 0 := by
  simp [occurrences, List.countP_cons]

lemma occurrences_emit (selected : Bool) :
    occurrences lt x (emit selected a l) =
      occurrences lt x l + if selected = true ∧ Equivalent lt a x then 1 else 0 := by
  cases selected with
  | true => simp [emit, occurrences_cons]
  | false => simp [emit]

end Sorted

section Order

variable {lt : α → α → Prop} [IsStrictWeakOrder α lt] {a b c x : α} {l m r : List α}

lemma Equivalent.trans (h : Equivalent lt a b) (h' : Equivalent lt b c) : Equivalent lt a c :=
  IsStrictWeakOrder.incomp_trans a b c h h'

lemma lt_of_lt_of_not_lt (hab : lt a b) (hcb : ¬lt c b) : lt a c := by
  by_contra hac
  have hca : ¬lt c a := fun h => hcb (lt_trans_of h hab)
  have hbc : ¬lt b c := fun h => hac (lt_trans_of hab h)
  exact (Equivalent.trans ⟨hac, hca⟩ ⟨hcb, hbc⟩).1 hab

lemma not_lt_of_mem (hm : Sorted lt (b :: m)) (hc : c ∈ b :: m) : ¬lt c b := by
  rcases List.mem_cons.mp hc with rfl | hc
  · exact lt_irrefl_of c
  · exact (List.pairwise_cons.mp hm).1 c hc

/-- What is less than the head of a sorted range is less than all of it. -/
lemma lt_of_mem (hm : Sorted lt (b :: m)) (hab : lt a b) (hc : c ∈ b :: m) : lt a c :=
  lt_of_lt_of_not_lt hab (not_lt_of_mem hm hc)

variable [DecidableRel lt]

lemma occurrences_eq_zero (hm : Sorted lt (b :: m)) (hab : lt a b) (hx : Equivalent lt a x) :
    occurrences lt x (b :: m) = 0 := by
  refine List.countP_eq_zero.mpr fun c hc hcx => ?_
  have hcx : Equivalent lt c x := of_decide_eq_true hcx
  exact (hx.trans hcx.symm).1 (lt_of_mem hm hab hc)

omit [DecidableRel lt] in
lemma equivalent_congr (hab : Equivalent lt a b) : Equivalent lt a x ↔ Equivalent lt b x :=
  ⟨fun h => hab.symm.trans h, fun h => hab.trans h⟩

omit [IsStrictWeakOrder α lt] [DecidableRel lt] in
lemma Sorted.emit (selected : Bool) (hr : Sorted lt r) (h : ∀ c ∈ r, ¬lt c a) :
    Sorted lt (StdOrder.emit selected a r) := by
  cases selected with
  | true => exact List.pairwise_cons.mpr ⟨h, hr⟩
  | false => exact hr

omit [IsStrictWeakOrder α lt] [DecidableRel lt] in
lemma emit_subset (selected : Bool) : emit selected a r ⊆ a :: r := by
  cases selected with
  | true => exact List.Subset.refl _
  | false => exact List.subset_cons_self a r

omit [IsStrictWeakOrder α lt] [DecidableRel lt] in
lemma tails_subset (a b : α) (l m : List α) : l ++ m ⊆ a :: l ++ b :: m := by
  intro c hc
  rcases List.mem_append.mp hc with hc | hc
  · exact List.mem_append_left _ (List.mem_cons_of_mem a hc)
  · exact List.mem_append_right _ (List.mem_cons_of_mem b hc)

omit [IsStrictWeakOrder α lt] in
lemma Decides.mono {less : Comparator α} (h : Decides less lt l) (hr : r ⊆ l) : Decides less lt r :=
  fun a ha b hb => h a (hr ha) b (hr hb)

omit [IsStrictWeakOrder α lt] in
lemma occurrences_ite (selected : Bool) :
    occurrences lt x (if selected then l else []) = if selected then occurrences lt x l else 0 := by
  cases selected with
  | true => rfl
  | false => rfl

/-! ### The set operations -/

theorem select_spec (s : Selection) {less : Comparator α} (hdec : Decides less lt (l ++ m)) (hl : Sorted lt l)
    (hm : Sorted lt m) : ∃ r, select s less l m = some r ∧ Sorted lt r ∧ r ⊆ l ++ m ∧
      ∀ x, occurrences lt x r = s.count (occurrences lt x l) (occurrences lt x m) := by
  induction l, m using select.induct with
  | case1 m =>
    refine ⟨_, by rw [select], ?_, ?_, fun x => ?_⟩
    · split
      · exact hm
      · exact .nil
    · split <;> simp
    · rw [occurrences_ite, occurrences_nil, Selection.count_zero_left]
  | case2 a l =>
    refine ⟨_, by rw [select], ?_, ?_, fun x => ?_⟩
    · split
      · exact hl
      · exact .nil
    · split <;> simp
    · rw [occurrences_ite, occurrences_nil, Selection.count_zero_right]
  | case3 a l b m ih1 ih2 ih3 =>
    have hab := hdec a (by simp) b (by simp)
    have hba := hdec b (by simp) a (by simp)
    rw [select, hab, hba, Option.bind_some, Option.bind_some]
    by_cases hlt : lt a b
    · -- only the first range has elements equivalent to `a`
      obtain ⟨r, hr, hsorted, hsub, hcount⟩ := ih1 (hdec.mono (List.subset_cons_self a _)) hl.of_cons hm
      rw [decide_eq_true hlt, if_pos rfl, hr]
      refine ⟨_, rfl, hsorted.emit _ fun c hc => ?_, ?_, fun x => ?_⟩
      · rcases List.mem_append.mp (hsub hc) with hc | hc
        · exact not_lt_of_mem hl (List.mem_cons_of_mem _ hc)
        · exact fun h => lt_irrefl_of a (lt_trans_of (lt_of_mem hm hlt hc) h)
      · exact List.Subset.trans (emit_subset s.first) (List.cons_subset_cons a hsub)
      · rw [occurrences_emit, hcount, occurrences_cons (l := l)]
        by_cases hx : Equivalent lt a x
        · rw [occurrences_eq_zero hm hlt hx, Selection.count_zero_right, Selection.count_zero_right]
          cases s.first <;> simp [hx]
        · simp [hx]
    rw [decide_eq_false hlt, if_neg Bool.false_ne_true]
    by_cases hlt' : lt b a
    · -- only the second range has elements equivalent to `b`
      have hsub' : a :: l ++ m ⊆ a :: l ++ b :: m := by
        intro c hc
        rcases List.mem_append.mp hc with hc | hc
        · exact List.mem_append_left _ hc
        · exact List.mem_append_right _ (List.mem_cons_of_mem b hc)
      obtain ⟨r, hr, hsorted, hsub, hcount⟩ := ih2 (hdec.mono hsub') hl hm.of_cons
      rw [decide_eq_true hlt', if_pos rfl, hr]
      refine ⟨_, rfl, hsorted.emit _ fun c hc => ?_, ?_, fun x => ?_⟩
      · rcases List.mem_append.mp (hsub hc) with hc | hc
        · exact fun h => lt_irrefl_of b (lt_trans_of (lt_of_mem hl hlt' hc) h)
        · exact not_lt_of_mem hm (List.mem_cons_of_mem _ hc)
      · refine List.Subset.trans (emit_subset s.second) (List.cons_subset.mpr ⟨by simp, List.Subset.trans hsub hsub'⟩)
      · rw [occurrences_emit, hcount, occurrences_cons (l := m)]
        by_cases hx : Equivalent lt b x
        · rw [occurrences_eq_zero hl hlt' hx, Selection.count_zero_left, Selection.count_zero_left]
          cases s.second <;> simp [hx]
        · simp [hx]
    · -- the heads are equivalent
      have hequiv : Equivalent lt a b := ⟨hlt, hlt'⟩
      have hsub' := tails_subset a b l m
      obtain ⟨r, hr, hsorted, hsub, hcount⟩ := ih3 (hdec.mono hsub') hl.of_cons hm.of_cons
      rw [decide_eq_false hlt', if_neg Bool.false_ne_true, hr]
      refine ⟨_, rfl, hsorted.emit _ fun c hc => ?_, ?_, fun x => ?_⟩
      · rcases List.mem_append.mp (hsub hc) with hc | hc
        · exact not_lt_of_mem hl (List.mem_cons_of_mem _ hc)
        · exact fun h => not_lt_of_mem hm (List.mem_cons_of_mem b hc) (lt_of_lt_of_not_lt h hlt')
      · exact List.Subset.trans (emit_subset s.both) (List.cons_subset.mpr ⟨by simp, List.Subset.trans hsub hsub'⟩)
      · rw [occurrences_emit, hcount, occurrences_cons (l := l), occurrences_cons (l := m)]
        by_cases hx : Equivalent lt a x
        · rw [if_pos hx, if_pos ((equivalent_congr hequiv).mp hx), Selection.count_succ_succ]
          cases s.both <;> simp [hx]
        · simp [hx, mt (equivalent_congr hequiv).mpr hx]

/-! ### Merging -/

theorem merge_spec {less : Comparator α} (hdec : Decides less lt (l ++ m)) (hl : Sorted lt l) (hm : Sorted lt m) :
    ∃ r, merge less l m = some r ∧ Sorted lt r ∧ r.Perm (l ++ m) := by
  induction l, m using merge.induct with
  | case1 m => exact ⟨m, by rw [merge], hm, .refl m⟩
  | case2 a l => exact ⟨a :: l, by rw [merge], hl, by rw [List.append_nil]⟩
  | case3 a l b m ih1 ih2 =>
    have hba := hdec b (by simp) a (by simp)
    rw [merge, hba, Option.bind_some]
    by_cases hlt : lt b a
    · have hperm : (a :: l ++ b :: m).Perm (b :: (a :: l ++ m)) := List.perm_middle
      obtain ⟨r, hr, hsorted, hr'⟩ := ih1 (hdec.mono fun c hc => hperm.symm.subset (List.mem_cons_of_mem b hc)) hl
        hm.of_cons
      rw [decide_eq_true hlt, if_pos rfl, hr]
      refine ⟨_, rfl, List.pairwise_cons.mpr ⟨fun c hc => ?_, hsorted⟩, (hr'.cons b).trans hperm.symm⟩
      rcases List.mem_append.mp (hr'.subset hc) with hc | hc
      · exact fun h => lt_irrefl_of b (lt_trans_of (lt_of_mem hl hlt hc) h)
      · exact not_lt_of_mem hm (List.mem_cons_of_mem _ hc)
    · obtain ⟨r, hr, hsorted, hr'⟩ := ih2 (hdec.mono (List.subset_cons_self a _)) hl.of_cons hm
      rw [decide_eq_false hlt, if_neg Bool.false_ne_true, hr]
      refine ⟨_, rfl, List.pairwise_cons.mpr ⟨fun c hc => ?_, hsorted⟩, hr'.cons a⟩
      rcases List.mem_append.mp (hr'.subset hc) with hc | hc
      · exact not_lt_of_mem hl (List.mem_cons_of_mem _ hc)
      · exact fun h => not_lt_of_mem hm hc (lt_of_lt_of_not_lt h hlt)

/-! ### Inclusion -/

lemma occurrences_congr (h : Equivalent lt a x) (l : List α) : occurrences lt a l = occurrences lt x l := by
  refine List.countP_congr fun c _ => ?_
  simp only [decide_eq_true_eq]
  exact ⟨fun hc => hc.trans h, fun hc => hc.trans h.symm⟩

/-- The head is in its range. -/
lemma occurrences_head_pos : 0 < occurrences lt a (a :: l) := by
  rw [occurrences_cons, if_pos ⟨lt_irrefl_of a, lt_irrefl_of a⟩]
  exact Nat.succ_pos _

theorem includes_spec {less : Comparator α} (hdec : Decides less lt (l ++ m)) (hl : Sorted lt l)
    (hm : Sorted lt m) : ∃ found, includes less l m = some found ∧
      (found = true ↔ ∀ x, occurrences lt x m ≤ occurrences lt x l) := by
  induction l, m using includes.induct with
  | case1 l => exact ⟨true, by rw [includes], by simp⟩
  | case2 b m =>
    refine ⟨false, by rw [includes], ?_⟩
    simp only [Bool.false_eq_true, false_iff]
    intro h
    exact absurd (h b) (Nat.not_le.mpr occurrences_head_pos)
  | case3 a l b m ih1 ih2 =>
    have hab := hdec a (by simp) b (by simp)
    have hba := hdec b (by simp) a (by simp)
    rw [includes, hab, hba, Option.bind_some, Option.bind_some]
    by_cases hlt' : lt b a
    · rw [decide_eq_true hlt', if_pos rfl]
      refine ⟨false, rfl, ?_⟩
      simp only [Bool.false_eq_true, false_iff]
      intro h
      have hb := h b
      rw [occurrences_eq_zero hl hlt' ⟨lt_irrefl_of b, lt_irrefl_of b⟩] at hb
      exact absurd hb (Nat.not_le.mpr occurrences_head_pos)
    rw [decide_eq_false hlt', if_neg Bool.false_ne_true]
    by_cases hlt : lt a b
    · obtain ⟨found, hfound, hiff⟩ := ih1 (hdec.mono (List.subset_cons_self a _)) hl.of_cons hm
      rw [decide_eq_true hlt, if_pos rfl]
      refine ⟨found, hfound, hiff.trans (forall_congr' fun x => ?_)⟩
      rw [occurrences_cons (l := l)]
      by_cases hx : Equivalent lt a x
      · simp [occurrences_eq_zero hm hlt hx]
      · simp [hx]
    · have hequiv : Equivalent lt a b := ⟨hlt, hlt'⟩
      obtain ⟨found, hfound, hiff⟩ := ih2 (hdec.mono (tails_subset a b l m)) hl.of_cons hm.of_cons
      rw [decide_eq_false hlt, if_neg Bool.false_ne_true]
      refine ⟨found, hfound, hiff.trans (forall_congr' fun x => ?_)⟩
      rw [occurrences_cons (l := l), occurrences_cons (l := m)]
      by_cases hx : Equivalent lt a x
      · simp [hx, (equivalent_congr hequiv).mp hx]
      · simp [hx, mt (equivalent_congr hequiv).mpr hx]

end Order

end StdOrder
