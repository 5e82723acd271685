import Mathlib.Data.List.Basic
import Mathlib.Data.List.Induction
import Mathlib.Data.List.Nodup
import Mathlib.Tactic.Common

/-!
# Collecting the distinct elements of a list

A list is gone through and each element kept unless it is found among those kept before. What is the
same is said by a key; the search goes by a comparison of its own, which need not tell the truth and
need not return.
-/

namespace Distinct

variable {α κ : Type} [DecidableEq κ] (key : α → κ)

def addNew (kept : List α) (e : α) : List α := if key e ∈ kept.map key then kept else kept ++ [e]

/-- Each element once, where it stands first. -/
def firstOccurrences (l : List α) : List α := l.foldl (addNew key) []

/-! ### First occurrences -/

section First

variable {key} {kept : List α} {e : α}

lemma addNew_of_mem (h : key e ∈ kept.map key) : addNew key kept e = kept := if_pos h

lemma addNew_of_not_mem (h : key e ∉ kept.map key) : addNew key kept e = kept ++ [e] := if_neg h

lemma mem_keys_addNew {k : κ} : k ∈ (addNew key kept e).map key ↔ k ∈ kept.map key ∨ k = key e := by
  by_cases h : key e ∈ kept.map key
  · rw [addNew_of_mem h]
    exact ⟨.inl, fun h' => h'.elim id fun heq => heq ▸ h⟩
  · rw [addNew_of_not_mem h, List.map_append, List.mem_append, List.map_singleton, List.mem_singleton]

lemma mem_keys_foldl (l : List α) {k : κ} :
    k ∈ (l.foldl (addNew key) kept).map key ↔ k ∈ kept.map key ∨ k ∈ l.map key := by
  induction l generalizing kept with
  | nil => simp
  | cons e l ih =>
    rw [List.foldl_cons, ih, mem_keys_addNew, List.map_cons, List.mem_cons, or_assoc]

lemma nodup_addNew (h : (kept.map key).Nodup) (e : α) : ((addNew key kept e).map key).Nodup := by
  by_cases he : key e ∈ kept.map key
  · rwa [addNew_of_mem he]
  · rw [addNew_of_not_mem he, List.map_append, List.map_singleton]
    exact List.nodup_append.mpr ⟨h, List.nodup_singleton _, fun a ha b hb heq => by
      rw [List.mem_singleton.mp hb] at heq
      exact he (heq ▸ ha)⟩

lemma nodup_foldl (h : (kept.map key).Nodup) (l : List α) :
    ((l.foldl (addNew key) kept).map key).Nodup := by
  induction l generalizing kept with
  | nil => exact h
  | cons e l ih => exact ih (nodup_addNew h e)

lemma nodup_firstOccurrences (l : List α) : ((firstOccurrences key l).map key).Nodup := by
  have hnil : (([] : List α).map key).Nodup := List.nodup_nil
  exact nodup_foldl hnil l

lemma mem_keys_firstOccurrences (l : List α) {k : κ} :
    k ∈ (firstOccurrences key l).map key ↔ k ∈ l.map key := by
  rw [firstOccurrences, mem_keys_foldl]
  simp

lemma foldl_subset (l : List α) : l.foldl (addNew key) kept ⊆ kept ++ l := by
  induction l generalizing kept with
  | nil => simp
  | cons e l ih =>
    refine List.Subset.trans ih (List.append_subset.mpr ⟨?_, ?_⟩)
    · by_cases he : key e ∈ kept.map key
      · rw [addNew_of_mem he]
        exact List.subset_append_left _ _
      · rw [addNew_of_not_mem he]
        exact List.append_subset.mpr ⟨List.subset_append_left _ _, by simp⟩
    · exact List.Subset.trans (List.subset_cons_self e l) (List.subset_append_right _ _)

lemma firstOccurrences_subset (l : List α) : firstOccurrences key l ⊆ l := foldl_subset l

lemma firstOccurrences_append (a b : List α) :
    firstOccurrences key (a ++ b) = b.foldl (addNew key) (firstOccurrences key a) := List.foldl_append

/-- What has no repetitions is kept as it is. -/
lemma foldl_of_nodup {l : List α} (h : ((kept ++ l).map key).Nodup) :
    l.foldl (addNew key) kept = kept ++ l := by
  induction l generalizing kept with
  | nil => simp
  | cons e l ih =>
    have hnew : key e ∉ kept.map key := by
      rw [List.map_append, List.map_cons, List.nodup_append] at h
      exact fun he => h.2.2 _ he _ List.mem_cons_self rfl
    have happend : kept ++ e :: l = kept ++ [e] ++ l := by simp
    rw [List.foldl_cons, addNew_of_not_mem hnew, ih (by rwa [← happend]), ← happend]

/-- What is there already adds nothing. -/
lemma foldl_of_subset {l : List α} (h : ∀ e ∈ l, key e ∈ kept.map key) : l.foldl (addNew key) kept = kept := by
  induction l with
  | nil => rfl
  | cons e l ih =>
    rw [List.foldl_cons, addNew_of_mem (h e List.mem_cons_self)]
    exact ih fun y hy => h y (List.mem_cons_of_mem e hy)

lemma firstOccurrences_of_nodup {l : List α} (h : (l.map key).Nodup) : firstOccurrences key l = l :=
  foldl_of_nodup h

theorem firstOccurrences_idem (l : List α) :
    firstOccurrences key (firstOccurrences key l) = firstOccurrences key l :=
  firstOccurrences_of_nodup (nodup_firstOccurrences l)

theorem firstOccurrences_append_left (a b : List α) :
    firstOccurrences key (firstOccurrences key a ++ b) = firstOccurrences key (a ++ b) := by
  rw [firstOccurrences_append, firstOccurrences_append, firstOccurrences_idem]

/-- Repetitions that are left out before make no difference. -/
lemma foldl_firstOccurrences (b : List α) :
    (firstOccurrences key b).foldl (addNew key) kept = b.foldl (addNew key) kept := by
  induction b using List.reverseRecOn with
  | nil => rfl
  | append_singleton b e ih =>
    rw [firstOccurrences_append, List.foldl_cons, List.foldl_nil, List.foldl_append, List.foldl_cons,
      List.foldl_nil, ← ih]
    by_cases he : key e ∈ (firstOccurrences key b).map key
    · have hkept : key e ∈ ((firstOccurrences key b).foldl (addNew key) kept).map key :=
        (mem_keys_foldl _).mpr (.inr he)
      rw [addNew_of_mem he, addNew_of_mem hkept]
    · rw [addNew_of_not_mem he, List.foldl_append, List.foldl_cons, List.foldl_nil]

theorem firstOccurrences_append_right (a b : List α) :
    firstOccurrences key (a ++ firstOccurrences key b) = firstOccurrences key (a ++ b) := by
  rw [firstOccurrences_append, firstOccurrences_append, foldl_firstOccurrences]

end First

/-! ### The search -/

section Search

variable (equal : α → α → Option Bool)

/-- `std::find_if` with the comparison; `none` where it does not return. -/
def search : List α → α → Option Bool
  | [], _ => some false
  | x :: l, e => do
    let found ← equal x e
    if found then some true else search l e

/-- One element of the collection. -/
def collectStep (kept : List α) (e : α) : Option (List α) := do
  let found ← search equal kept e
  some (if found then kept else kept ++ [e])

def collect (kept l : List α) : Option (List α) := l.foldlM (collectStep equal) kept

/-- The comparisons up to the first that finds the element equal all return. -/
def Returns : List α → α → Prop
  | [], _ => True
  | x :: l, e => match equal x e with
    | none => False
    | some true => True
    | some false => Returns l e

/-- The comparison tells apart what comes before the same element, and finds that one equal. -/
def Recognised : List α → α → Prop
  | [], _ => True
  | x :: l, e => if key x = key e then equal x e = some true else equal x e = some false ∧ Recognised l e

/-- Each element is recognised among those that stand before it. -/
def AllRecognised : List α → List α → Prop
  | _, [] => True
  | kept, e :: l => Recognised key equal kept e ∧ AllRecognised (addNew key kept e) l

/-- A comparison that sees no more of an element than its key, and finds an element with the property equal
to nothing unless to itself. -/
structure Lawful (P : α → Prop) : Prop where
  congr_left : ∀ {x x' : α} (e : α), key x = key x' → equal x e = equal x' e
  congr_right : ∀ (x : α) {e e' : α}, key e = key e' → equal x e = equal x e'
  self : ∀ {x e : α}, P e → equal x e = some true → equal e e = some true

variable {key equal}

lemma search_cons (x : α) (l : List α) (e : α) :
    search equal (x :: l) e = (equal x e).bind fun found => if found then some true else search equal l e :=
  rfl

lemma search_append (l m : List α) (e : α) :
    search equal (l ++ m) e = (search equal l e).bind fun found => if found then some true else search equal m e := by
  induction l with
  | nil => rfl
  | cons x l ih =>
    rw [List.cons_append, search_cons, search_cons, ih]
    cases equal x e with
    | none => rfl
    | some found => cases found <;> rfl

lemma isSome_search_iff (l : List α) (e : α) : (search equal l e).isSome = true ↔ Returns equal l e := by
  induction l with
  | nil => simp [search, Returns]
  | cons x l ih =>
    rw [search_cons, Returns]
    cases equal x e with
    | none => simp
    | some found => cases found <;> simp [ih]

/-- Where the element is found: there it is equal, and before it the comparison says no. -/
lemma search_eq_true_iff {l : List α} {e : α} :
    search equal l e = some true ↔
      ∃ a x b, l = a ++ x :: b ∧ (∀ y ∈ a, equal y e = some false) ∧ equal x e = some true := by
  induction l with
  | nil => simp [search]
  | cons x l ih =>
    rw [search_cons]
    constructor
    · intro h
      cases hx : equal x e with
      | none => simp [hx] at h
      | some found =>
        cases found with
        | true => exact ⟨[], x, l, rfl, by simp, hx⟩
        | false =>
          rw [hx] at h
          obtain ⟨a, y, b, rfl, ha, hy⟩ := ih.mp h
          refine ⟨x :: a, y, b, rfl, ?_, hy⟩
          exact List.forall_mem_cons.mpr ⟨hx, ha⟩
    · rintro ⟨a, y, b, hl, ha, hy⟩
      cases a with
      | nil =>
        obtain ⟨rfl, rfl⟩ := List.cons.inj hl
        rw [hy]
        rfl
      | cons z a =>
        obtain ⟨rfl, rfl⟩ := List.cons.inj hl
        rw [ha x List.mem_cons_self, Option.bind_some, if_neg Bool.false_ne_true]
        exact ih.mpr ⟨a, y, b, rfl, fun w hw => ha w (List.mem_cons_of_mem x hw), hy⟩

lemma search_eq_false_iff {l : List α} {e : α} :
    search equal l e = some false ↔ ∀ x ∈ l, equal x e = some false := by
  induction l with
  | nil => simp [search]
  | cons x l ih =>
    rw [search_cons, List.forall_mem_cons]
    cases hx : equal x e with
    | none => simp
    | some found => cases found <;> simp [ih]

lemma search_of_decided {p : α → Prop} [DecidablePred p] {l : List α} {e : α}
    (h : ∀ x ∈ l, equal x e = some (decide (p x))) : search equal l e = some (decide (∃ x ∈ l, p x)) := by
  induction l with
  | nil => simp [search]
  | cons x l ih =>
    rw [search_cons, h x List.mem_cons_self, ih fun y hy => h y (List.mem_cons_of_mem x hy)]
    by_cases hx : p x <;> simp [hx]

/-- Whether a recognised element is found is whether it is there. -/
lemma search_of_recognised {l : List α} {e : α} (h : Recognised key equal l e) :
    search equal l e = some (decide (key e ∈ l.map key)) := by
  induction l with
  | nil => simp [search]
  | cons x l ih =>
    rw [Recognised] at h
    rw [search_cons, List.map_cons]
    by_cases hx : key x = key e
    · rw [if_pos hx] at h
      simp [h, hx]
    · rw [if_neg hx] at h
      have hne : key e ≠ key x := Ne.symm hx
      simp [h.1, ih h.2, hne]

omit [DecidableEq κ] in
/-- An element is found in a list that ends with it exactly if it is equal to itself. -/
theorem search_self_iff {P : α → Prop} (law : Lawful key equal P) {e : α} (he : P e) (l : List α) :
    search equal (l ++ [e]) e = some true ↔ Returns equal l e ∧ equal e e = some true := by
  rw [search_append, ← isSome_search_iff]
  constructor
  · intro h
    cases hl : search equal l e with
    | none => simp [hl] at h
    | some found =>
      refine ⟨rfl, ?_⟩
      cases found with
      | true =>
        obtain ⟨a, x, b, -, -, hx⟩ := search_eq_true_iff.mp hl
        exact law.self he hx
      | false =>
        rw [hl, Option.bind_some, if_neg Bool.false_ne_true] at h
        obtain ⟨a, x, b, -, -, hx⟩ := search_eq_true_iff.mp h
        exact law.self he hx
  · rintro ⟨hl, hself⟩
    obtain ⟨found, hfound⟩ := Option.isSome_iff_exists.mp hl
    rw [hfound]
    cases found with
    | true => rfl
    | false => simp [search, hself]

/-! ### The collection -/

lemma collect_cons (kept : List α) (e : α) (l : List α) :
    collect equal kept (e :: l) = (search equal kept e).bind fun found =>
      collect equal (if found then kept else kept ++ [e]) l := by
  rw [collect, List.foldlM_cons, collectStep]
  cases search equal kept e <;> rfl

lemma collect_append (kept l m : List α) :
    collect equal kept (l ++ m) = (collect equal kept l).bind fun kept' => collect equal kept' m :=
  List.foldlM_append

theorem collect_of_allRecognised {kept l : List α} (h : AllRecognised key equal kept l) :
    collect equal kept l = some (l.foldl (addNew key) kept) := by
  induction l generalizing kept with
  | nil => rfl
  | cons e l ih =>
    rw [AllRecognised] at h
    rw [collect_cons, search_of_recognised h.1, Option.bind_some, List.foldl_cons, ← ih h.2]
    by_cases he : key e ∈ kept.map key
    · rw [addNew_of_mem he, if_pos (decide_eq_true he)]
    · rw [addNew_of_not_mem he, if_neg (by simpa using he)]

omit [DecidableEq κ] in
lemma collect_keeps {kept l r : List α} (h : collect equal kept l = some r) : kept <+: r := by
  induction l generalizing kept with
  | nil =>
    obtain rfl := Option.some.inj h
    exact List.prefix_refl _
  | cons e l ih =>
    rw [collect_cons] at h
    obtain ⟨found, -, hrest⟩ := Option.bind_eq_some_iff.mp h
    have hprefix := ih hrest
    cases found with
    | true => exact hprefix
    | false => exact (List.prefix_append kept [e]).trans hprefix

/-- A comparison that always returns, and only takes an element for equal that is free. -/
lemma recognised_iff {free : α → Prop} [DecidablePred free] {kept : List α} {e : α}
    (h : ∀ x ∈ kept, equal x e = some (decide (key x = key e ∧ free e))) :
    Recognised key equal kept e ↔ (key e ∈ kept.map key → free e) := by
  induction kept with
  | nil => simp [Recognised]
  | cons x kept ih =>
    have hx := h x List.mem_cons_self
    rw [Recognised, hx, ih fun y hy => h y (List.mem_cons_of_mem x hy), List.map_cons, List.mem_cons]
    by_cases hkey : key x = key e
    · simp [hkey]
    · have hne : key e ≠ key x := Ne.symm hkey
      simp [hkey, hne]

/-- With such a comparison only elements that are free can be repeated. -/
theorem allRecognised_iff {free : α → Prop} [DecidablePred free] {kept l : List α}
    (h : ∀ x ∈ kept ++ l, ∀ e ∈ l, equal x e = some (decide (key x = key e ∧ free e))) :
    AllRecognised key equal kept l ↔
      (∀ e ∈ l, key e ∈ kept.map key → free e) ∧ l.Pairwise fun x e => key x = key e → free e := by
  induction l generalizing kept with
  | nil => simp [AllRecognised]
  | cons e l ih =>
    have hkept : ∀ x ∈ kept, equal x e = some (decide (key x = key e ∧ free e)) :=
      fun x hx => h x (List.mem_append_left _ hx) e List.mem_cons_self
    have hadd : ∀ x ∈ addNew key kept e ++ l, ∀ y ∈ l, equal x y = some (decide (key x = key y ∧ free y)) := by
      intro x hx y hy
      refine h x ?_ y (List.mem_cons_of_mem e hy)
      rcases List.mem_append.mp hx with hx | hx
      · by_cases he : key e ∈ kept.map key
        · rw [addNew_of_mem he] at hx
          exact List.mem_append_left _ hx
        · rw [addNew_of_not_mem he] at hx
          rcases List.mem_append.mp hx with hx | hx
          · exact List.mem_append_left _ hx
          · rw [List.mem_singleton.mp hx]
            exact List.mem_append_right _ List.mem_cons_self
      · exact List.mem_append_right _ (List.mem_cons_of_mem e hx)
    rw [AllRecognised, recognised_iff hkept, ih hadd, List.forall_mem_cons, List.pairwise_cons]
    constructor
    · rintro ⟨he, hl, hpair⟩
      refine ⟨⟨he, fun y hy hkey => hl y hy (mem_keys_addNew.mpr (.inl hkey))⟩, ?_, hpair⟩
      exact fun y hy hkey => hl y hy (mem_keys_addNew.mpr (.inr hkey.symm))
    · rintro ⟨⟨he, hl⟩, hhead, hpair⟩
      refine ⟨he, fun y hy hkey => ?_, hpair⟩
      exact (mem_keys_addNew.mp hkey).elim (hl y hy) fun heq => hhead y hy heq.symm

variable {P : α → Prop} (law : Lawful key equal P)

include law

omit [DecidableEq κ] in
lemma search_congr (l : List α) {e e' : α} (h : key e = key e') : search equal l e = search equal l e' := by
  induction l with
  | nil => rfl
  | cons x l ih => rw [search_cons, search_cons, law.congr_right x h, ih]

omit [DecidableEq κ] in
/-- An element that is dropped though it is new never gets in. -/
lemma collect_dropped {kept l r : List α} {e : α} (hfound : search equal kept e = some true)
    (hnew : key e ∉ kept.map key) (h : collect equal kept l = some r) : key e ∉ r.map key := by
  induction l generalizing kept with
  | nil =>
    obtain rfl := Option.some.inj h
    exact hnew
  | cons y l ih =>
    rw [collect_cons] at h
    obtain ⟨found, hy, hrest⟩ := Option.bind_eq_some_iff.mp h
    cases found with
    | true => exact ih hfound hnew hrest
    | false =>
      have hne : key e ≠ key y := by
        intro heq
        rw [← search_congr law kept heq, hfound] at hy
        cases hy
      refine ih ?_ ?_ hrest
      · rw [if_neg Bool.false_ne_true, search_append, hfound]
        rfl
      · rw [if_neg Bool.false_ne_true, List.map_append, List.mem_append, List.map_singleton, List.mem_singleton]
        exact fun hmem => hmem.elim hnew hne

/-- A search that finds what is there has recognised it, if the elements kept are told apart. -/
lemma recognised_of_found {kept : List α} (hapart : kept.Pairwise fun x y => equal x y ≠ some true) {e : α}
    (he : P e) (hmem : key e ∈ kept.map key) (h : search equal kept e = some true) :
    Recognised key equal kept e := by
  induction kept with
  | nil => simp at hmem
  | cons x kept ih =>
    have hcons := List.pairwise_cons.mp hapart
    rw [search_cons] at h
    rw [Recognised]
    by_cases hx : key x = key e
    · rw [if_pos hx]
      -- the search finds something equal, so the element is equal to itself, and with it all that has its key
      have hfound : search equal (x :: kept) e = some true := h
      obtain ⟨a, y, b, -, -, hy⟩ := search_eq_true_iff.mp hfound
      rw [law.congr_left e hx]
      exact law.self he hy
    · rw [if_neg hx]
      have htail : key e ∈ kept.map key := by
        rw [List.map_cons, List.mem_cons] at hmem
        exact hmem.resolve_left (Ne.symm hx)
      cases hxe : equal x e with
      | none => simp [hxe] at h
      | some found =>
        cases found with
        | true =>
          obtain ⟨y, hy, hkey⟩ := List.mem_map.mp htail
          rw [law.congr_right x hkey.symm] at hxe
          exact absurd hxe (hcons.1 y hy)
        | false =>
          rw [hxe] at h
          exact ⟨rfl, ih hcons.2 htail h⟩

omit law in
lemma recognised_of_not_found {kept : List α} {e : α} (hmem : key e ∉ kept.map key)
    (h : search equal kept e = some false) : Recognised key equal kept e := by
  induction kept with
  | nil => trivial
  | cons x kept ih =>
    rw [List.map_cons, List.mem_cons, not_or] at hmem
    have hall := search_eq_false_iff.mp h
    rw [Recognised, if_neg (Ne.symm hmem.1)]
    exact ⟨hall x List.mem_cons_self, ih hmem.2 (search_eq_false_iff.mpr fun y hy =>
      hall y (List.mem_cons_of_mem x hy))⟩

/-- A collection without repetitions and without losses has recognised every element. -/
theorem allRecognised_of_collect {kept l r : List α} (hP : ∀ e ∈ l, P e)
    (hapart : kept.Pairwise fun x y => equal x y ≠ some true) (h : collect equal kept l = some r)
    (hnodup : (r.map key).Nodup) (hall : ∀ e ∈ l, key e ∈ r.map key) : AllRecognised key equal kept l := by
  induction l generalizing kept with
  | nil => trivial
  | cons e l ih =>
    have hPe := hP e List.mem_cons_self
    have hPl : ∀ y ∈ l, P y := fun y hy => hP y (List.mem_cons_of_mem e hy)
    have halll : ∀ y ∈ l, key y ∈ r.map key := fun y hy => hall y (List.mem_cons_of_mem e hy)
    rw [collect_cons] at h
    obtain ⟨found, hsearch, hrest⟩ := Option.bind_eq_some_iff.mp h
    rw [AllRecognised]
    cases found with
    | true =>
      have hmem : key e ∈ kept.map key := by
        by_contra hnew
        exact collect_dropped law hsearch hnew hrest (hall e List.mem_cons_self)
      rw [addNew_of_mem hmem]
      exact ⟨recognised_of_found law hapart hPe hmem hsearch, ih hPl hapart hrest halll⟩
    | false =>
      have hnew : key e ∉ kept.map key := by
        intro hmem
        have hsub := ((collect_keeps hrest).map key).sublist.nodup hnodup
        rw [if_neg Bool.false_ne_true, List.map_append, List.map_singleton, List.nodup_append] at hsub
        exact hsub.2.2 _ hmem _ (List.mem_singleton_self _) rfl
      rw [addNew_of_not_mem hnew]
      refine ⟨recognised_of_not_found hnew hsearch, ih hPl ?_ hrest halll⟩
      refine List.pairwise_append.mpr ⟨hapart, List.pairwise_singleton _ _, ?_⟩
      intro x hx y hy
      rw [List.mem_singleton.mp hy, search_eq_false_iff.mp hsearch x hx]
      simp

/-- The elements of a longer list are collected from a shorter one exactly if every element is recognised
and the rest brings nothing new. -/
theorem collect_eq_firstOccurrences_iff {l l' : List α} (hP : ∀ e ∈ l, P e) (hsub : l ⊆ l') :
    collect equal [] l = some (firstOccurrences key l') ↔
      AllRecognised key equal [] l ∧ firstOccurrences key l = firstOccurrences key l' := by
  constructor
  · intro h
    have hrec := allRecognised_of_collect law hP List.Pairwise.nil h (nodup_firstOccurrences l') fun e he =>
      (mem_keys_firstOccurrences l').mpr (List.mem_map_of_mem (hsub he))
    rw [collect_of_allRecognised hrec] at h
    exact ⟨hrec, Option.some.inj h⟩
  · rintro ⟨hrec, heq⟩
    rw [← heq]
    exact collect_of_allRecognised hrec

end Search

end Distinct
