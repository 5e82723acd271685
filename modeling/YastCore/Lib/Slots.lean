import Mathlib.Data.List.Nodup
import Mathlib.Data.List.Perm.Basic
import YastCore.Lib.Assoc

/-!
# Lists with stable positions

A `std::list` as the list of its elements with the identities of their nodes, which iterators stand for,
and multimaps of iterators as lists of pairs. An index is right when it lists exactly the elements that
have a key, each with its key.
-/

namespace YastCore.Slots

variable {α κ : Type}

/-- An identity that no node has. -/
def fresh (c : List (Nat × α)) : Nat := (c.map Prod.fst).foldr max 0 + 1

def push (x : α) (c : List (Nat × α)) : List (Nat × α) := c ++ [(fresh c, x)]

def erase (id : Nat) (c : List (Nat × α)) : List (Nat × α) := c.filter fun p => p.1 ≠ id

def replace (id : Nat) (x : α) (c : List (Nat × α)) : List (Nat × α) :=
  c.map fun p => if p.1 = id then (id, x) else p

/-- The index that lists the elements with a key. -/
def entries (key : α → Option κ) (c : List (Nat × α)) : List (κ × Nat) :=
  c.filterMap fun p => (key p.2).map fun k => (k, p.1)

/-- The order among the pairs of an index does not matter. -/
def Indexes (key : α → Option κ) (index : List (κ × Nat)) (c : List (Nat × α)) : Prop :=
  index.Perm (entries key c)

def unindex (id : Nat) (index : List (κ × Nat)) : List (κ × Nat) := index.filter fun e => e.2 ≠ id

/-- The iterators of the equal range of a key. -/
def equalRange [DecidableEq κ] (k : κ) (index : List (κ × Nat)) : List Nat :=
  (index.filter fun e => e.1 = k).map Prod.snd

/-! ### Identities -/

lemma lt_fresh {c : List (Nat × α)} {id : Nat} (h : id ∈ c.map Prod.fst) : id < fresh c := by
  unfold fresh
  generalize c.map Prod.fst = ids at h
  induction ids with
  | nil => cases h
  | cons i ids ih =>
    rw [List.foldr_cons]
    rcases List.mem_cons.mp h with rfl | h
    · have := Nat.le_max_left id (ids.foldr max 0)
      omega
    · have := Nat.le_max_right i (ids.foldr max 0)
      have := ih h
      omega

lemma fresh_notMem (c : List (Nat × α)) : fresh c ∉ c.map Prod.fst :=
  fun h => absurd (lt_fresh h) (Nat.lt_irrefl _)

lemma nodup_push {c : List (Nat × α)} (h : (c.map Prod.fst).Nodup) (x : α) :
    ((push x c).map Prod.fst).Nodup := by
  rw [push, List.map_append, List.map_singleton]
  refine List.Nodup.append h (List.nodup_singleton _) ?_
  rw [List.disjoint_singleton]
  exact fresh_notMem c

lemma nodup_erase {c : List (Nat × α)} (h : (c.map Prod.fst).Nodup) (id : Nat) :
    ((erase id c).map Prod.fst).Nodup :=
  h.sublist (List.Sublist.map _ List.filter_sublist)

lemma map_fst_replace (id : Nat) (x : α) (c : List (Nat × α)) :
    (replace id x c).map Prod.fst = c.map Prod.fst := by
  rw [replace, List.map_map]
  refine List.map_congr_left fun p _ => ?_
  by_cases hp : p.1 = id <;> simp [hp]

/-! ### Elements -/

lemma mem_of_find {c : List (Nat × α)} {id : Nat} {x : α} (h : Assoc.find id c = some x) :
    (id, x) ∈ c := by
  induction c with
  | nil => cases h
  | cons p c ih =>
    rw [Assoc.find] at h
    split at h
    next heq =>
      cases h
      exact List.mem_cons.mpr (.inl (Prod.ext heq.symm rfl))
    next => exact List.mem_cons_of_mem _ (ih h)

lemma find_of_mem {c : List (Nat × α)} (hc : (c.map Prod.fst).Nodup) {id : Nat} {x : α}
    (h : (id, x) ∈ c) : Assoc.find id c = some x := by
  induction c with
  | nil => cases h
  | cons p c ih =>
    rw [List.map_cons, List.nodup_cons] at hc
    rw [Assoc.find]
    rcases List.mem_cons.mp h with rfl | h
    · rw [if_pos rfl]
    · have hne : p.1 ≠ id := by
        rintro rfl
        exact hc.1 (List.mem_map.mpr ⟨_, h, rfl⟩)
      rw [if_neg hne, ih hc.2 h]

/-- An identity has one element. -/
lemma mem_unique {c : List (Nat × α)} (hc : (c.map Prod.fst).Nodup) {id : Nat} {x y : α} (hx : (id, x) ∈ c)
    (hy : (id, y) ∈ c) : x = y :=
  Option.some.inj ((find_of_mem hc hx).symm.trans (find_of_mem hc hy))

lemma mem_push {c : List (Nat × α)} {x : α} {p : Nat × α} :
    p ∈ push x c ↔ p ∈ c ∨ p = (fresh c, x) := by
  rw [push, List.mem_append, List.mem_singleton]

lemma mem_erase {c : List (Nat × α)} {id : Nat} {p : Nat × α} : p ∈ erase id c ↔ p ∈ c ∧ p.1 ≠ id := by
  rw [erase, List.mem_filter, decide_eq_true_iff]

lemma mem_replace {c : List (Nat × α)} {id : Nat} {x : α} {p : Nat × α} (h : p ∈ replace id x c) :
    (p ∈ c ∧ p.1 ≠ id) ∨ p = (id, x) := by
  obtain ⟨q, hq, rfl⟩ := List.mem_map.mp h
  by_cases hid : q.1 = id
  · rw [if_pos hid]
    exact .inr rfl
  · rw [if_neg hid]
    exact .inl ⟨hq, hid⟩

/-! ### Looking up -/

lemma find_append_of_mem {c d : List (Nat × α)} {id : Nat} (h : id ∈ c.map Prod.fst) :
    Assoc.find id (c ++ d) = Assoc.find id c := by
  induction c with
  | nil => cases h
  | cons p c ih =>
    rw [List.cons_append, Assoc.find, Assoc.find]
    by_cases hp : p.1 = id
    · rw [if_pos hp, if_pos hp]
    · rw [List.map_cons, List.mem_cons] at h
      rw [if_neg hp, if_neg hp, ih (h.resolve_left (Ne.symm hp))]

lemma find_push_of_mem {c : List (Nat × α)} {id : Nat} (h : id ∈ c.map Prod.fst) (x : α) :
    Assoc.find id (push x c) = Assoc.find id c := find_append_of_mem h

lemma find_append_of_notMem {c d : List (Nat × α)} {id : Nat} (h : id ∉ c.map Prod.fst) :
    Assoc.find id (c ++ d) = Assoc.find id d := by
  induction c with
  | nil => rfl
  | cons p c ih =>
    rw [List.map_cons, List.mem_cons, not_or] at h
    rw [List.cons_append, Assoc.find, if_neg (Ne.symm h.1), ih h.2]

lemma find_push_fresh (c : List (Nat × α)) (x : α) : Assoc.find (fresh c) (push x c) = some x := by
  rw [push, find_append_of_notMem (fresh_notMem c), Assoc.find, if_pos rfl]

lemma find_replace_of_ne {c : List (Nat × α)} {id i : Nat} (h : i ≠ id) (x : α) :
    Assoc.find i (replace id x c) = Assoc.find i c := by
  induction c with
  | nil => rfl
  | cons p c ih =>
    rw [replace, List.map_cons, Assoc.find, Assoc.find, ← replace, ih]
    by_cases hp : p.1 = id
    · rw [if_pos hp, if_neg (Ne.symm h), if_neg (hp ▸ Ne.symm h)]
    · rw [if_neg hp]

lemma find_replace_self {c : List (Nat × α)} {id : Nat} (h : id ∈ c.map Prod.fst) (x : α) :
    Assoc.find id (replace id x c) = some x := by
  induction c with
  | nil => cases h
  | cons p c ih =>
    rw [replace, List.map_cons, Assoc.find, ← replace]
    by_cases hp : p.1 = id
    · rw [if_pos hp, if_pos rfl]
    · rw [List.map_cons, List.mem_cons] at h
      rw [if_neg hp, if_neg hp, ih (h.resolve_left (Ne.symm hp))]

lemma find_replace_of_find {c : List (Nat × α)} {id : Nat} {x : α} (h : Assoc.find id c = some x) (y : α) :
    Assoc.find id (replace id y c) = some y :=
  find_replace_self (List.mem_map.mpr ⟨_, mem_of_find h, rfl⟩) y

lemma find_erase_of_ne {c : List (Nat × α)} {id i : Nat} (h : i ≠ id) :
    Assoc.find i (erase id c) = Assoc.find i c := Assoc.find_erase_of_ne (Ne.symm h) c

/-! ### Indexes -/

lemma entries_push (key : α → Option κ) (c : List (Nat × α)) (x : α) :
    entries key (push x c) = entries key c ++ ((key x).map fun k => (k, fresh c)).toList := by
  rw [entries, push, List.filterMap_append]
  cases hx : key x with
  | none => simp [entries, hx]
  | some k => simp [entries, hx]

lemma entries_erase (key : α → Option κ) (c : List (Nat × α)) (id : Nat) :
    entries key (erase id c) = unindex id (entries key c) := by
  induction c with
  | nil => rfl
  | cons p c ih =>
    by_cases hp : p.1 = id
    · cases hkey : key p.2 <;> simp_all [entries, erase, unindex]
    · cases hkey : key p.2 <;> simp_all [entries, erase, unindex]

lemma entries_replace {key : α → Option κ} {c : List (Nat × α)} {id : Nat} {x : α}
    (h : ∀ y, (id, y) ∈ c → key y = key x) : entries key (replace id x c) = entries key c := by
  rw [entries, entries, replace, List.filterMap_map]
  refine List.filterMap_congr fun p hp => ?_
  by_cases hid : p.1 = id
  · have hkey := h p.2 (by rw [← hid]; exact hp)
    simp [hid, hkey]
  · simp [hid]

variable {key : α → Option κ} {index : List (κ × Nat)} {c : List (Nat × α)}

lemma Indexes.push_some {x : α} {k : κ} (h : Indexes key index c) (hx : key x = some k) :
    Indexes key (index ++ [(k, fresh c)]) (push x c) := by
  rw [Indexes, entries_push, hx]
  exact List.Perm.append_right _ h

lemma Indexes.push_none {x : α} (h : Indexes key index c) (hx : key x = none) :
    Indexes key index (push x c) := by
  rw [Indexes, entries_push, hx, Option.map_none, Option.toList_none, List.append_nil]
  exact h

lemma Indexes.erase (h : Indexes key index c) (id : Nat) :
    Indexes key (unindex id index) (erase id c) := by
  rw [Indexes, entries_erase]
  exact List.Perm.filter _ h

/-- An element without a key may be erased without touching the index. -/
lemma Indexes.erase_none (h : Indexes key index c) {id : Nat} (hid : ∀ x, (id, x) ∈ c → key x = none) :
    Indexes key index (Slots.erase id c) := by
  have hkeep : unindex id (entries key c) = entries key c := by
    rw [unindex, List.filter_eq_self]
    intro e he
    obtain ⟨p, hp, hkey⟩ := List.mem_filterMap.mp he
    obtain ⟨k, hk, rfl⟩ := Option.map_eq_some_iff.mp hkey
    rw [decide_eq_true_iff]
    rintro rfl
    rw [hid p.2 hp] at hk
    cases hk
  rw [Indexes, entries_erase, hkeep]
  exact h

lemma Indexes.replace (h : Indexes key index c) {id : Nat} {x : α}
    (hx : ∀ y, (id, y) ∈ c → key y = key x) : Indexes key index (replace id x c) := by
  rw [Indexes, entries_replace hx]
  exact h

/-- What an index lists is there, under its key. -/
lemma Indexes.mem (h : Indexes key index c) {k : κ} {id : Nat} (hmem : (k, id) ∈ index) :
    ∃ x, (id, x) ∈ c ∧ key x = some k := by
  obtain ⟨p, hp, hkey⟩ := List.mem_filterMap.mp (h.mem_iff.mp hmem)
  obtain ⟨k', hk', heq⟩ := Option.map_eq_some_iff.mp hkey
  obtain ⟨rfl, rfl⟩ := Prod.mk.inj heq
  exact ⟨p.2, hp, hk'⟩

lemma mem_equalRange [DecidableEq κ] {k : κ} {id : Nat} : id ∈ equalRange k index ↔ (k, id) ∈ index := by
  simp [equalRange]

lemma equalRange_append [DecidableEq κ] (k : κ) (index : List (κ × Nat)) (k' : κ) (id : Nat) :
    equalRange k (index ++ [(k', id)]) = equalRange k index ++ if k' = k then [id] else [] := by
  by_cases h : k' = k <;> simp [equalRange, h]

lemma equalRange_unindex [DecidableEq κ] (k : κ) (index : List (κ × Nat)) (id : Nat) :
    equalRange k (unindex id index) = (equalRange k index).filter fun i => i ≠ id := by
  rw [equalRange, equalRange, unindex, List.filter_map, List.filter_filter, List.filter_filter]
  simp only [Bool.and_comm, Function.comp_apply]

lemma nodup_equalRange [DecidableEq κ] {index : List (κ × Nat)} (h : (index.map Prod.snd).Nodup) (k : κ) :
    (equalRange k index).Nodup :=
  h.sublist (List.filter_sublist.map Prod.snd)

lemma nodup_unindex {index : List (κ × Nat)} (h : (index.map Prod.snd).Nodup) (id : Nat) :
    ((unindex id index).map Prod.snd).Nodup :=
  h.sublist (List.filter_sublist.map Prod.snd)

end YastCore.Slots
