import Mathlib.Data.List.Induction
import Mathlib.Logic.Function.Basic
import Mathlib.Tactic.Common

/-!
# Sorted vectors

A vector that is kept sorted by a key and searched by halving, as a finite map. The library is over
any type of elements and any type of keys with a lawful order.
-/

namespace YastCore.SortedVector

/-! ### Halving -/

/-- The loop of `std::lower_bound` over the positions of a range. -/
def lowerBoundLoop (less : Nat → Bool) : Nat → Nat → Nat → Nat
  | 0, first, _ => first
  | fuel + 1, first, len =>
    if len = 0 then first
    else if less (first + len / 2) then
      lowerBoundLoop less fuel (first + len / 2 + 1) (len - len / 2 - 1)
    else lowerBoundLoop less fuel first (len / 2)

/-- The number of positions of the range that are less is found. -/
lemma lowerBoundLoop_spec {less : Nat → Bool} {n : Nat}
    (hless : ∀ i j, i ≤ j → j < n → less j = true → less i = true) {fuel first len : Nat}
    (hfuel : len ≤ fuel) (hlen : first + len ≤ n) (hbelow : ∀ i, i < first → less i = true)
    (habove : ∀ i, first + len ≤ i → i < n → less i = false) :
    lowerBoundLoop less fuel first len ≤ n ∧
      (∀ i, i < lowerBoundLoop less fuel first len → less i = true) ∧
      ∀ i, lowerBoundLoop less fuel first len ≤ i → i < n → less i = false := by
  induction fuel generalizing first len with
  | zero =>
    have hzero : len = 0 := by omega
    subst hzero
    exact ⟨hlen, hbelow, habove⟩
  | succ fuel ih =>
    unfold lowerBoundLoop
    split
    next hzero =>
      subst hzero
      exact ⟨hlen, hbelow, habove⟩
    next hzero =>
      split
      next hmiddle =>
        apply ih
        · omega
        · omega
        · intro i hi
          exact hless i (first + len / 2) (by omega) (by omega) hmiddle
        · intro i hi hn
          exact habove i (by omega) hn
      next hmiddle =>
        apply ih
        · omega
        · omega
        · exact hbelow
        · intro i hi hn
          by_contra hi'
          exact hmiddle (hless (first + len / 2) i hi hn (by simpa using hi'))

section Vector

variable {α κ : Type}

/-- `std::lower_bound` on a vector. -/
def lowerBound (less : α → Bool) (l : List α) : Nat :=
  lowerBoundLoop (fun i => l[i]?.any less) l.length 0 l.length

/-- The elements that are less come first. -/
def Partitioned (less : α → Bool) (l : List α) : Prop :=
  l.Pairwise fun a b => less b = true → less a = true

lemma lowerBound_spec {less : α → Bool} {l : List α} (h : Partitioned less l) :
    lowerBound less l ≤ l.length ∧ (∀ a ∈ l.take (lowerBound less l), less a = true) ∧
      ∀ a ∈ l.drop (lowerBound less l), less a = false := by
  have hless : ∀ i j, i ≤ j → j < l.length → l[j]?.any less = true → l[i]?.any less = true := by
    intro i j hij hj hlt
    rcases Nat.eq_or_lt_of_le hij with rfl | hij
    · exact hlt
    · have hpair := (List.pairwise_iff_getElem.mp h) i j (by omega) hj hij
      rw [List.getElem?_eq_getElem hj] at hlt
      rw [List.getElem?_eq_getElem (by omega)]
      exact hpair hlt
  obtain ⟨hle, hbelow, habove⟩ : lowerBound less l ≤ l.length ∧
      (∀ i, i < lowerBound less l → l[i]?.any less = true) ∧
      ∀ i, lowerBound less l ≤ i → i < l.length → l[i]?.any less = false := by
    apply lowerBoundLoop_spec hless (Nat.le_refl l.length)
    · omega
    · omega
    · omega
  refine ⟨hle, fun a ha => ?_, fun a ha => ?_⟩
  · obtain ⟨i, hi, rfl⟩ := List.mem_iff_getElem.mp ha
    rw [List.length_take] at hi
    have hlt := hbelow i (by omega)
    rw [List.getElem?_eq_getElem (by omega)] at hlt
    simpa using hlt
  · obtain ⟨i, hi, rfl⟩ := List.mem_iff_getElem.mp ha
    rw [List.length_drop] at hi
    have hge := habove (lowerBound less l + i) (by omega) (by omega)
    rw [List.getElem?_eq_getElem (by omega)] at hge
    simpa using hge

/-! ### Vectors sorted by a key -/

variable [Ord κ]

def bound (key : α → κ) (k : κ) (l : List α) : Nat :=
  lowerBound (fun a => compare (key a) k == .lt) l

/-- The position of the element with a key. -/
def find? (key : α → κ) (k : κ) (l : List α) : Option Nat :=
  match l[bound key k l]? with
  | some a => if compare (key a) k = .eq then some (bound key k l) else none
  | none => none

/-- The element goes before the first that is not less. -/
def insert (key : α → κ) (a : α) (l : List α) : List α :=
  l.take (bound key (key a) l) ++ a :: l.drop (bound key (key a) l)

/-- Strictly sorted by the key. -/
def Sorted (key : α → κ) (l : List α) : Prop := l.Pairwise fun a b => compare (key a) (key b) = .lt

section Trans

variable [Std.TransOrd κ] {key : α → κ} {l : List α}

lemma Sorted.partitioned (h : Sorted key l) (k : κ) :
    Partitioned (fun a => compare (key a) k == .lt) l := by
  refine h.imp fun {a b} hab hb => ?_
  rw [beq_iff_eq] at hb ⊢
  exact Std.TransCmp.lt_trans hab hb

/-- The bound cuts the vector into the smaller elements and the others. -/
lemma Sorted.split (h : Sorted key l) (k : κ) :
    ∃ below rest, l = below ++ rest ∧ bound key k l = below.length ∧
      (∀ a ∈ below, compare (key a) k = .lt) ∧ ∀ a ∈ rest, compare (key a) k ≠ .lt := by
  obtain ⟨hle, hbelow, habove⟩ := lowerBound_spec (h.partitioned k)
  refine ⟨l.take (bound key k l), l.drop (bound key k l), (List.take_append_drop _ _).symm, ?_, ?_, ?_⟩
  · rw [List.length_take]
    exact (Nat.min_eq_left hle).symm
  · intro a ha
    simpa using hbelow a ha
  · intro a ha
    simpa using habove a ha

end Trans

/-! ### Vectors as finite maps -/

/-- The vector is strictly sorted and holds what the map holds. -/
structure Represents (key : α → κ) (l : List α) (m : κ → Option α) : Prop where
  sorted : Sorted key l
  mem : ∀ k a, m k = some a ↔ a ∈ l ∧ key a = k

lemma represents_nil (key : α → κ) : Represents key [] fun _ => none where
  sorted := List.Pairwise.nil
  mem := by simp

variable [Std.TransOrd κ] [Std.LawfulEqOrd κ] {key : α → κ} {l : List α} {m : κ → Option α} {k : κ}
  {a : α} {i : Nat}

lemma compare_gt_of_ne {k k' : κ} (hlt : compare k k' ≠ .lt) (hne : k ≠ k') : compare k' k = .lt := by
  rw [← Std.OrientedCmp.gt_iff_lt]
  cases h : compare k k' with
  | lt => exact absurd h hlt
  | eq => exact absurd (Std.LawfulEqCmp.eq_of_compare h) hne
  | gt => rfl

/-- An element of a sorted vector is the first that is not less than its key. -/
lemma Sorted.bound_eq (h : Sorted key l) (hi : l[i]? = some a) : bound key (key a) l = i := by
  obtain ⟨below, rest, rfl, hbound, hbelow, hrest⟩ := h.split (key a)
  rw [hbound]
  rcases Nat.lt_trichotomy i below.length with hlt | heq | hgt
  · rw [List.getElem?_append_left hlt] at hi
    have hself := hbelow a (List.mem_of_getElem? hi)
    have hrefl : compare (key a) (key a) = .eq := Std.ReflCmp.compare_self
    rw [hrefl] at hself
    cases hself
  · exact heq.symm
  · rw [List.getElem?_append_right (by omega)] at hi
    obtain ⟨first, others, rfl⟩ : ∃ first others, rest = first :: others := by
      cases rest with
      | nil => simp at hi
      | cons first others => exact ⟨first, others, rfl⟩
    have hmem : a ∈ others := by
      rw [List.getElem?_cons, if_neg (by omega)] at hi
      exact List.mem_of_getElem? hi
    have hsorted : Sorted key (first :: others) := (List.pairwise_append.mp h).2.1
    exact absurd ((List.pairwise_cons.mp hsorted).1 a hmem) (hrest first List.mem_cons_self)

lemma find?_eq_some_iff (h : Sorted key l) :
    find? key k l = some i ↔ ∃ a, l[i]? = some a ∧ key a = k := by
  unfold find?
  constructor
  · intro hfind
    split at hfind
    next a ha =>
      split at hfind
      next heq =>
        cases hfind
        exact ⟨a, ha, Std.LawfulEqCmp.eq_of_compare heq⟩
      · cases hfind
    · cases hfind
  · rintro ⟨a, ha, rfl⟩
    rw [h.bound_eq ha, ha]
    simp only [Std.ReflCmp.compare_self, if_true]

lemma Represents.find?_eq_none_iff (h : Represents key l m) : find? key k l = none ↔ m k = none := by
  rw [Option.eq_none_iff_forall_ne_some, Option.eq_none_iff_forall_ne_some]
  constructor
  · intro hfind a ha
    obtain ⟨hmem, hkey⟩ := (h.mem k a).mp ha
    obtain ⟨i, hi⟩ := List.mem_iff_getElem?.mp hmem
    exact hfind i ((find?_eq_some_iff h.sorted).mpr ⟨a, hi, hkey⟩)
  · intro hm i hi
    obtain ⟨a, ha, hkey⟩ := (find?_eq_some_iff h.sorted).mp hi
    exact hm a ((h.mem k a).mpr ⟨List.mem_of_getElem? ha, hkey⟩)

variable [DecidableEq κ]

/-- Erasing the element that was found removes its key from the map. -/
lemma Represents.erase (h : Represents key l m) (hi : find? key k l = some i) :
    Represents key (l.eraseIdx i) (Function.update m k none) where
  sorted := h.sorted.sublist (List.eraseIdx_sublist l i)
  mem := by
    obtain ⟨a, ha, hkey⟩ := (find?_eq_some_iff h.sorted).mp hi
    intro k' b
    by_cases hk : k' = k
    · rw [hk, Function.update_self]
      refine iff_of_false (by simp) ?_
      rintro ⟨hb, hkeyb⟩
      obtain ⟨j, hj, hget⟩ := List.mem_eraseIdx_iff_getElem?.mp hb
      have hbj := h.sorted.bound_eq hget
      rw [hkeyb, ← hkey, h.sorted.bound_eq ha] at hbj
      exact hj hbj.symm
    · rw [Function.update_of_ne hk, h.mem k' b]
      constructor
      · rintro ⟨hb, hkeyb⟩
        obtain ⟨j, hj⟩ := List.mem_iff_getElem?.mp hb
        refine ⟨List.mem_eraseIdx_iff_getElem?.mpr ⟨j, ?_, hj⟩, hkeyb⟩
        rintro rfl
        rw [ha] at hj
        rw [← hkeyb, ← Option.some.inj hj, hkey] at hk
        exact hk rfl
      · rintro ⟨hb, hkeyb⟩
        exact ⟨List.mem_of_mem_eraseIdx hb, hkeyb⟩

/-- Inserting an element at its bound adds its key to the map. -/
lemma Represents.insert (h : Represents key l m) (hm : m (key a) = none) :
    Represents key (insert key a l) (Function.update m (key a) (some a)) := by
  obtain ⟨below, rest, hl, hbound, hbelow, hrest⟩ := h.sorted.split (key a)
  have hinsert : SortedVector.insert key a l = below ++ a :: rest := by
    unfold SortedVector.insert
    rw [hbound, hl, List.take_left, List.drop_left]
  have hsorted := h.sorted
  have hfresh : ∀ b ∈ l, key b ≠ key a := by
    intro b hb hkey
    have hsome := (h.mem (key a) b).mpr ⟨hb, hkey⟩
    rw [hm] at hsome
    cases hsome
  rw [hl] at hsorted hfresh
  obtain ⟨hs₁, hs₂, hs₃⟩ := List.pairwise_append.mp hsorted
  rw [hinsert]
  refine ⟨List.pairwise_append.mpr ⟨hs₁, List.pairwise_cons.mpr ⟨fun b hb => ?_, hs₂⟩, ?_⟩, ?_⟩
  · exact compare_gt_of_ne (hrest b hb) (hfresh b (List.mem_append_right _ hb))
  · intro b hb c hc
    rcases List.mem_cons.mp hc with rfl | hc
    · exact hbelow b hb
    · exact hs₃ b hb c hc
  · intro k b
    by_cases hk : k = key a
    · rw [hk, Function.update_self]
      constructor
      · rintro ⟨⟩
        exact ⟨by simp, rfl⟩
      · rintro ⟨hb, hkey⟩
        rw [List.mem_append, List.mem_cons] at hb
        rcases hb with hb | rfl | hb
        · exact absurd hkey (hfresh b (List.mem_append_left _ hb))
        · rfl
        · exact absurd hkey (hfresh b (List.mem_append_right _ hb))
    · rw [Function.update_of_ne hk, h.mem k b, hl]
      simp only [List.mem_append, List.mem_cons]
      constructor
      · rintro ⟨hb | hb, hkey⟩
        · exact ⟨.inl hb, hkey⟩
        · exact ⟨.inr (.inr hb), hkey⟩
      · rintro ⟨hb | rfl | hb, hkey⟩
        · exact ⟨.inl hb, hkey⟩
        · exact absurd hkey.symm hk
        · exact ⟨.inr hb, hkey⟩

/-- An element that is greater than all others goes to the end. -/
lemma Represents.push (h : Represents key l m) (hless : ∀ b ∈ l, compare (key b) (key a) = .lt) :
    Represents key (l ++ [a]) (Function.update m (key a) (some a)) := by
  have hm : m (key a) = none := by
    rw [Option.eq_none_iff_forall_ne_some]
    intro b hb
    obtain ⟨hmem, hkey⟩ := (h.mem (key a) b).mp hb
    have hlt := hless b hmem
    have hrefl : compare (key a) (key a) = .eq := Std.ReflCmp.compare_self
    rw [hkey, hrefl] at hlt
    cases hlt
  have hinsert : SortedVector.insert key a l = l ++ [a] := by
    obtain ⟨below, rest, hl, hbound, -, hrest⟩ := h.sorted.split (key a)
    have hnil : rest = [] := by
      rw [List.eq_nil_iff_forall_not_mem]
      intro b hb
      exact hrest b hb (hless b (by rw [hl]; exact List.mem_append_right _ hb))
    unfold SortedVector.insert
    rw [hbound, hl, List.take_left, List.drop_left, hnil, List.append_nil]
  rw [← hinsert]
  exact h.insert hm

end Vector

/-! ### Sorted keys without repetition -/

section Squeeze

variable {κ : Type} [DecidableEq κ]

/-- A key is added where it is not the last one. -/
def squeezeStep (keys : List κ) (k : κ) : List κ := if keys.getLast? = some k then keys else keys ++ [k]

/-- A key that follows itself is left out. -/
def squeeze (l : List κ) : List κ := l.foldl squeezeStep []

variable {l : List κ} {k : κ}

lemma squeeze_append_singleton (l : List κ) (k : κ) : squeeze (l ++ [k]) = squeezeStep (squeeze l) k := by
  rw [squeeze, List.foldl_append]
  rfl

lemma mem_squeeze (l : List κ) (k : κ) : k ∈ squeeze l ↔ k ∈ l := by
  induction l using List.reverseRecOn with
  | nil => rfl
  | append_singleton l k' ih =>
    rw [squeeze_append_singleton, squeezeStep, List.mem_append, List.mem_singleton, ← ih]
    split
    · next h =>
      have hlast : k' ∈ squeeze l := List.mem_of_getLast? h
      exact ⟨Or.inl, fun hk => hk.elim id fun heq => heq ▸ hlast⟩
    · rw [List.mem_append, List.mem_singleton]

lemma length_squeezeStep (keys : List κ) (k : κ) :
    keys.length ≤ (squeezeStep keys k).length ∧ (squeezeStep keys k).length ≤ keys.length + 1 := by
  rw [squeezeStep]
  split
  · exact ⟨Nat.le_refl _, Nat.le_succ _⟩
  · rw [List.length_append, List.length_singleton]
    exact ⟨Nat.le_succ _, Nat.le_refl _⟩

variable [Ord κ] [Std.TransOrd κ] [Std.LawfulEqOrd κ]

/-- The keys of a sorted list without repetition. -/
lemma squeeze_sorted (h : l.Pairwise fun a b => compare a b ≠ .gt) :
    (squeeze l).Pairwise fun a b => compare a b = .lt := by
  induction l using List.reverseRecOn with
  | nil => exact List.Pairwise.nil
  | append_singleton l k ih =>
    obtain ⟨hl, -, hk⟩ := List.pairwise_append.mp h
    have hkeys := ih hl
    rw [squeeze_append_singleton, squeezeStep]
    split
    · exact hkeys
    · next hlast =>
      refine List.pairwise_append.mpr ⟨hkeys, List.pairwise_singleton _ k, fun a ha b hb => ?_⟩
      rw [List.mem_singleton.mp hb]
      have hle : compare a k ≠ .gt := hk a ((mem_squeeze l a).mp ha) k List.mem_cons_self
      have hne : a ≠ k := by
        -- what follows a key that is there again would be both above and below it
        rintro rfl
        obtain ⟨keys, last, hsplit⟩ : ∃ keys last, squeeze l = keys ++ [last] := by
          rcases List.eq_nil_or_concat (squeeze l) with hnil | ⟨keys, last, hconcat⟩
          · rw [hnil] at ha
            cases ha
          · exact ⟨keys, last, by rw [hconcat, List.concat_eq_append]⟩
        rw [hsplit, List.getLast?_concat] at hlast
        have hbefore : a ∈ keys := by
          rw [hsplit, List.mem_append, List.mem_singleton] at ha
          exact ha.resolve_right fun heq => hlast (by rw [heq])
        have hlt : compare a last = .lt := by
          rw [hsplit] at hkeys
          exact (List.pairwise_append.mp hkeys).2.2 a hbefore last List.mem_cons_self
        have hmem : last ∈ l := by
          rw [← mem_squeeze, hsplit]
          exact List.mem_append_right _ List.mem_cons_self
        exact hk last hmem a List.mem_cons_self (Std.OrientedCmp.gt_iff_lt.mpr hlt)
      cases hcompare : compare a k with
      | lt => rfl
      | eq => exact absurd (Std.LawfulEqCmp.eq_of_compare hcompare) hne
      | gt => exact absurd hcompare hle

end Squeeze

end YastCore.SortedVector
