import YastCore.Value.Order

/-!
# Operations of lists and maps

`YCPListRep::set` and `YCPMapRep::add`, `value`. A map is its entries in the order of `ycp_less`,
which is the order in which `std::map` runs through them.
-/

namespace YastCore.YCPValue

open KeyOrder

/-- `YCPListRep::set`: a negative index is ignored, a gap is filled with nil. -/
def listSet (l : List YCPValue) (i : Int) (v : YCPValue) : List YCPValue :=
  if i < 0 then l
  else (l ++ List.replicate (i.toNat + 1 - l.length) void).set i.toNat v

lemma listSet_length (l : List YCPValue) (v : YCPValue) : listSet l l.length v = l ++ [v] := by
  have h : l.length + 1 - l.length = 1 := by omega
  rw [listSet, if_neg (by omega), Int.toNat_natCast, h]
  simp

/-- `ycp_less` as `std::map` calls it. -/
def keyLess (a b : YCPValue) : Bool := a.compare b == some .lt

/-- Insertion at the lower bound of the key, or replacement of the value there. -/
def mapInsert (key value : YCPValue) :
    List (YCPValue × YCPValue) → List (YCPValue × YCPValue)
  | [] => [(key, value)]
  | (k, v) :: m =>
    if keyLess k key then (k, v) :: mapInsert key value m
    else if keyLess key k then (key, value) :: (k, v) :: m
    else (k, value) :: m

/-- `YCPMapRep::add`: `none` when the key is the null handle, which it asks for its type. -/
def mapAdd (m : List (YCPValue × YCPValue)) (key value : YCPValue) :
    Option (List (YCPValue × YCPValue)) :=
  if key.isNull then none
  else if key.isMapKey then some (mapInsert key value m)
  else some m

/-- `YCPMapRep::value`. -/
def mapValue (m : List (YCPValue × YCPValue)) (key : YCPValue) : YCPValue :=
  match m.find? fun e => !keyLess e.1 key && !keyLess key e.1 with
  | some e => e.2
  | none => null

/-! ### Keys -/

lemma isNull_of_isMapKey {k : YCPValue} (h : k.isMapKey = true) : k.isNull = false := by
  cases k with
  | null => simp [isMapKey] at h
  | _ => rfl

lemma dataUpTo_of_isMapKey {k : YCPValue} (h : k.isMapKey = true) : DataUpTo 0 k := by
  cases k <;> simp [isMapKey] at h <;> exact ⟨rfl, rfl⟩

lemma quoteAll_of_isMapKey {k : YCPValue} (h : k.isMapKey = true) : k.quoteAll = k := by
  cases k <;> simp [isMapKey] at h <;> rfl

lemma keyLess_iff {a b : YCPValue} (ha : a.isMapKey = true) (hb : b.isMapKey = true) :
    keyLess a b = true ↔ lex (orderKey a) (orderKey b) = .lt := by
  rw [keyLess, compare_eq_lex (by decide) (dataUpTo_of_isMapKey ha) (dataUpTo_of_isMapKey hb)]
  simp

lemma keyLess_trans {a b c : YCPValue} (ha : a.isMapKey = true) (hb : b.isMapKey = true)
    (hc : c.isMapKey = true) (h : keyLess a b = true) (h' : keyLess b c = true) :
    keyLess a c = true := by
  rw [keyLess_iff ha hb] at h
  rw [keyLess_iff hb hc] at h'
  rw [keyLess_iff ha hc]
  exact lex_lt_trans h h'

/-- Keys that are not less than each other are the same key. -/
lemma eq_of_not_keyLess {a b : YCPValue} (ha : a.isMapKey = true) (hb : b.isMapKey = true)
    (h : keyLess a b = false) (h' : keyLess b a = false) : a = b := by
  rw [← Bool.not_eq_true, keyLess_iff ha hb] at h
  rw [← Bool.not_eq_true, keyLess_iff hb ha] at h'
  have hkey := incomparable_iff.mp ⟨h, h'⟩
  have heq := (orderKey_eq_iff (dataUpTo_of_isMapKey ha).1 (dataUpTo_of_isMapKey hb).1).mp hkey
  rwa [quoteAll_of_isMapKey ha, quoteAll_of_isMapKey hb] at heq

lemma keyLess_irrefl {a : YCPValue} (ha : a.isMapKey = true) : keyLess a a = false := by
  rw [← Bool.not_eq_true, keyLess_iff ha ha, (lex_eq_iff _ _).mpr rfl]
  simp

/-! ### Ordered maps -/

/-- The invariant of `std::map`: the keys are of the right kind and strictly increasing. -/
structure MapOrdered (m : List (YCPValue × YCPValue)) : Prop where
  keys : ∀ e ∈ m, e.1.isMapKey = true
  increasing : m.Pairwise fun e e' => keyLess e.1 e'.1 = true

lemma mem_mapInsert {key value : YCPValue} {m : List (YCPValue × YCPValue)}
    {e : YCPValue × YCPValue} (h : e ∈ mapInsert key value m) :
    e = (key, value) ∨ (∃ e' ∈ m, e.1 = e'.1 ∧ (e.2 = e'.2 ∨ e.2 = value)) := by
  induction m with
  | nil => exact .inl (by simpa [mapInsert] using h)
  | cons e₀ m ih =>
    obtain ⟨k, v⟩ := e₀
    rw [mapInsert] at h
    split at h
    · rcases List.mem_cons.mp h with rfl | h
      · exact .inr ⟨(k, v), List.mem_cons_self, rfl, .inl rfl⟩
      · rcases ih h with h | ⟨e', he', h⟩
        · exact .inl h
        · exact .inr ⟨e', List.mem_cons_of_mem _ he', h⟩
    · split at h
      · rcases List.mem_cons.mp h with rfl | h
        · exact .inl rfl
        · exact .inr ⟨e, h, rfl, .inl rfl⟩
      · rcases List.mem_cons.mp h with rfl | h
        · exact .inr ⟨(k, v), List.mem_cons_self, rfl, .inr rfl⟩
        · exact .inr ⟨e, List.mem_cons_of_mem _ h, rfl, .inl rfl⟩

/-- Insertion keeps the keys in order. -/
lemma MapOrdered.insert {m : List (YCPValue × YCPValue)} (h : MapOrdered m) {key : YCPValue}
    (hkey : key.isMapKey = true) (value : YCPValue) : MapOrdered (mapInsert key value m) := by
  induction m with
  | nil =>
    refine ⟨?_, List.pairwise_singleton _ _⟩
    simpa [mapInsert] using hkey
  | cons e m ih =>
    obtain ⟨k, v⟩ := e
    have hk : k.isMapKey = true := h.keys (k, v) List.mem_cons_self
    have htail : MapOrdered m :=
      ⟨fun e he => h.keys e (List.mem_cons_of_mem _ he), (List.pairwise_cons.mp h.increasing).2⟩
    have hhead := (List.pairwise_cons.mp h.increasing).1
    rw [mapInsert]
    split
    next hless =>
      have ih := ih htail
      refine ⟨?_, List.pairwise_cons.mpr ⟨?_, ih.increasing⟩⟩
      · intro e he
        rcases List.mem_cons.mp he with rfl | he
        · exact hk
        · exact ih.keys e he
      · intro e he
        rcases mem_mapInsert he with rfl | ⟨e', he', heq, -⟩
        · exact hless
        · rw [heq]
          exact hhead e' he'
    next hnot =>
      split
      next hless =>
        refine ⟨?_, List.pairwise_cons.mpr ⟨?_, h.increasing⟩⟩
        · intro e he
          rcases List.mem_cons.mp he with rfl | he
          · exact hkey
          · exact h.keys e he
        · intro e he
          rcases List.mem_cons.mp he with rfl | he
          · exact hless
          · exact keyLess_trans hkey hk (htail.keys e he) hless (hhead e he)
      next hnot' =>
        refine ⟨?_, List.pairwise_cons.mpr ⟨hhead, htail.increasing⟩⟩
        intro e he
        rcases List.mem_cons.mp he with rfl | he
        · exact hk
        · exact htail.keys e he

/-- The value is in the map that comes out. -/
lemma mapInsert_injective {key v w : YCPValue} (m : List (YCPValue × YCPValue))
    (h : mapInsert key v m = mapInsert key w m) : v = w := by
  induction m with
  | nil =>
    rw [mapInsert, mapInsert] at h
    simpa using h
  | cons e m ih =>
    rw [mapInsert, mapInsert] at h
    split at h
    · exact ih (List.cons.inj h).2
    · split at h
      · exact (Prod.mk.inj (List.cons.inj h).1).2
      · exact (Prod.mk.inj (List.cons.inj h).1).2

/-- A key greater than all others goes to the end. -/
lemma mapInsert_append {m : List (YCPValue × YCPValue)} {key : YCPValue} (value : YCPValue)
    (h : ∀ e ∈ m, keyLess e.1 key = true) : mapInsert key value m = m ++ [(key, value)] := by
  induction m with
  | nil => rfl
  | cons e m ih =>
    obtain ⟨k, v⟩ := e
    have hk : keyLess k key = true := h (k, v) List.mem_cons_self
    rw [mapInsert, if_pos hk, ih fun e he => h e (List.mem_cons_of_mem _ he), List.cons_append]

lemma mapValue_cons_self {key : YCPValue} (hkey : key.isMapKey = true) (value : YCPValue)
    (m : List (YCPValue × YCPValue)) : mapValue ((key, value) :: m) key = value := by
  simp [mapValue, keyLess_irrefl hkey]

lemma mapValue_cons_of_ne {k key : YCPValue} (hk : k.isMapKey = true) (hkey : key.isMapKey = true)
    (h : k ≠ key) (value : YCPValue) (m : List (YCPValue × YCPValue)) :
    mapValue ((k, value) :: m) key = mapValue m key := by
  have hdiffer : (!keyLess k key && !keyLess key k) = false := by
    by_contra hsame
    rw [Bool.not_eq_false, Bool.and_eq_true, Bool.not_eq_true', Bool.not_eq_true'] at hsame
    exact h (eq_of_not_keyLess hk hkey hsame.1 hsame.2)
  simp [mapValue, hdiffer]

lemma mapValue_mapInsert_self {m : List (YCPValue × YCPValue)} (hm : ∀ e ∈ m, e.1.isMapKey = true)
    {key : YCPValue} (hkey : key.isMapKey = true) (value : YCPValue) :
    mapValue (mapInsert key value m) key = value := by
  induction m with
  | nil => exact mapValue_cons_self hkey value []
  | cons e m ih =>
    obtain ⟨k, v⟩ := e
    have hk : k.isMapKey = true := hm (k, v) List.mem_cons_self
    rw [mapInsert]
    split
    next hless =>
      have hne : k ≠ key := by
        rintro rfl
        rw [keyLess_irrefl hk] at hless
        cases hless
      rw [mapValue_cons_of_ne hk hkey hne]
      exact ih fun e he => hm e (List.mem_cons_of_mem _ he)
    next hnot =>
      split
      next hless => exact mapValue_cons_self hkey value _
      next hnot' =>
        have heq : k = key := eq_of_not_keyLess hk hkey (by simpa using hnot) (by simpa using hnot')
        subst heq
        exact mapValue_cons_self hk value m

lemma mapValue_mapInsert_of_ne {m : List (YCPValue × YCPValue)} (hm : ∀ e ∈ m, e.1.isMapKey = true)
    {key key' : YCPValue} (hkey : key.isMapKey = true) (hkey' : key'.isMapKey = true)
    (h : key ≠ key') (value : YCPValue) :
    mapValue (mapInsert key value m) key' = mapValue m key' := by
  induction m with
  | nil => exact mapValue_cons_of_ne hkey hkey' h value []
  | cons e m ih =>
    obtain ⟨k, v⟩ := e
    have hk : k.isMapKey = true := hm (k, v) List.mem_cons_self
    have ih := ih fun e he => hm e (List.mem_cons_of_mem _ he)
    rw [mapInsert]
    split
    next hless =>
      by_cases hkk : k = key'
      · subst hkk
        rw [mapValue_cons_self hk, mapValue_cons_self hk]
      · rw [mapValue_cons_of_ne hk hkey' hkk, mapValue_cons_of_ne hk hkey' hkk, ih]
    next hnot =>
      split
      next hless => exact mapValue_cons_of_ne hkey hkey' h value _
      next hnot' =>
        have heq : k = key := eq_of_not_keyLess hk hkey (by simpa using hnot) (by simpa using hnot')
        subst heq
        rw [mapValue_cons_of_ne hk hkey' h, mapValue_cons_of_ne hk hkey' h]

end YastCore.YCPValue
