import Mathlib.Data.Set.Card
import Mathlib.Logic.Function.Basic

/-!
# Ordered maps

`std::map` as the list of its pairs, walked by a comparator that orders the admissible keys. Whatever is done to
it, the list is determined by what the map holds: it represents a finite partial function.
-/

namespace YastCore.StdMap

variable {κ β : Type}

section Operations

variable (less : κ → κ → Bool) (k : κ)

/-- Insertion at the lower bound, or replacement of the value there. -/
def insert (v : β) : List (κ × β) → List (κ × β)
  | [] => [(k, v)]
  | e :: m =>
    if less e.1 k then e :: insert v m
    else if less k e.1 then (k, v) :: e :: m
    else (e.1, v) :: m

def erase : List (κ × β) → List (κ × β)
  | [] => []
  | e :: m =>
    if less e.1 k then e :: erase m
    else if less k e.1 then e :: m
    else m

def find (m : List (κ × β)) : Option (κ × β) := m.find? fun e => !less e.1 k && !less k e.1

end Operations

/-- The comparator is a strict linear order of the admissible keys. -/
structure Orders (less : κ → κ → Bool) (admissible : κ → Prop) : Prop where
  irrefl : ∀ {a}, admissible a → less a a = false
  trans : ∀ {a b c}, admissible a → admissible b → admissible c → less a b = true → less b c = true → less a c = true
  antisymm : ∀ {a b}, admissible a → admissible b → less a b = false → less b a = false → a = b

/-- The lists that a map can have. -/
structure Ordered (less : κ → κ → Bool) (admissible : κ → Prop) (m : List (κ × β)) : Prop where
  keys : ∀ e ∈ m, admissible e.1
  increasing : m.Pairwise fun e e' => less e.1 e'.1 = true

/-- The map has what the function says. -/
structure Represents (less : κ → κ → Bool) (admissible : κ → Prop) (m : List (κ × β)) (f : κ → Option β) : Prop
    extends Ordered less admissible m where
  holds : ∀ k v, f k = some v ↔ (k, v) ∈ m

variable {less : κ → κ → Bool} {admissible : κ → Prop} {m m' : List (κ × β)} {f f' : κ → Option β} {e : κ × β}
  {k k' : κ} {v v' : β}

lemma represents_nil : Represents less admissible ([] : List (κ × β)) fun _ => none :=
  ⟨⟨by simp, .nil⟩, by simp⟩

lemma ordered_cons_iff : Ordered less admissible (e :: m) ↔
    admissible e.1 ∧ (∀ e' ∈ m, less e.1 e'.1 = true) ∧ Ordered less admissible m := by
  constructor
  · rintro ⟨hkeys, hm⟩
    rw [List.forall_mem_cons] at hkeys
    rw [List.pairwise_cons] at hm
    exact ⟨hkeys.1, hm.1, hkeys.2, hm.2⟩
  · rintro ⟨hk, hhead, hkeys, hm⟩
    exact ⟨List.forall_mem_cons.mpr ⟨hk, hkeys⟩, List.pairwise_cons.mpr ⟨hhead, hm⟩⟩

namespace Orders

variable (O : Orders less admissible)
include O

lemma ne_of_less (hk : admissible k) (h : less k k' = true) : k ≠ k' := by
  rintro rfl
  rw [O.irrefl hk] at h
  cases h

/-- A key before all others is none of them. -/
lemma notMem (hk : admissible k) (h : ∀ e ∈ m, less k e.1 = true) : (k, v) ∉ m :=
  fun hm => O.ne_of_less hk (h _ hm) rfl

lemma unique (h : Ordered less admissible m) (hv : (k, v) ∈ m) (hv' : (k, v') ∈ m) : v = v' := by
  induction m with
  | nil => cases hv
  | cons e m ih =>
    obtain ⟨hk, hhead, htail⟩ := ordered_cons_iff.mp h
    rcases List.mem_cons.mp hv with rfl | hv
    · rcases List.mem_cons.mp hv' with hv' | hv'
      · exact (Prod.mk.inj hv').2.symm
      · exact absurd hv' (O.notMem hk hhead)
    · rcases List.mem_cons.mp hv' with rfl | hv'
      · exact absurd ‹(k, v) ∈ m› (O.notMem hk hhead)
      · exact ih htail hv hv'

/-- The function of an ordered list. -/
lemma exists_represents (h : Ordered less admissible m) : ∃ f, Represents less admissible m f := by
  classical
  refine ⟨fun k => if hv : ∃ v, (k, v) ∈ m then some hv.choose else none, h, fun k v => ?_⟩
  split
  · next hv =>
    rw [Option.some.injEq]
    exact ⟨fun heq => heq ▸ hv.choose_spec, fun hmem => O.unique h hv.choose_spec hmem⟩
  · next hv => simpa using fun hmem => hv ⟨v, hmem⟩

/-- The first pair and the rest. -/
lemma represents_cons [DecidableEq κ] (h : Represents less admissible (e :: m) f) :
    ∃ g, Represents less admissible m g ∧ f = Function.update g e.1 (some e.2) ∧ g e.1 = none := by
  obtain ⟨hk, hhead, htail⟩ := ordered_cons_iff.mp h.toOrdered
  obtain ⟨g, hg⟩ := O.exists_represents htail
  have hnone : g e.1 = none := by
    by_contra hne
    obtain ⟨v, hv⟩ := Option.ne_none_iff_exists'.mp hne
    exact O.notMem hk hhead ((hg.holds e.1 v).mp hv)
  refine ⟨g, hg, funext fun k => Option.ext fun v => ?_, hnone⟩
  rw [h.holds, Function.update_apply, List.mem_cons, ← hg.holds]
  by_cases hk : k = e.1
  · simp [hk, hnone, Prod.ext_iff, eq_comm]
  · simp [hk, Prod.ext_iff]

/-! ### Insertion -/

lemma mem_insert (h : Ordered less admissible m) (hk : admissible k) :
    (k', v') ∈ insert less k v m ↔ k' = k ∧ v' = v ∨ k' ≠ k ∧ (k', v') ∈ m := by
  induction m with
  | nil =>
    simp [insert]
  | cons e m ih =>
    obtain ⟨he, hhead, htail⟩ := ordered_cons_iff.mp h
    rw [insert]
    by_cases hless : less e.1 k = true
    · have hne : e.1 ≠ k := O.ne_of_less he hless
      rw [if_pos hless, List.mem_cons, List.mem_cons, ih htail]
      constructor
      · rintro (rfl | h | ⟨hk', h⟩)
        · exact .inr ⟨hne, .inl rfl⟩
        · exact .inl h
        · exact .inr ⟨hk', .inr h⟩
      · rintro (h | ⟨hk', rfl | h⟩)
        · exact .inr (.inl h)
        · exact .inl rfl
        · exact .inr (.inr ⟨hk', h⟩)
    rw [if_neg hless]
    by_cases hless' : less k e.1 = true
    · have hnone : (k, v') ∉ e :: m := by
        refine O.notMem hk (List.forall_mem_cons.mpr ⟨hless', fun e' he' => ?_⟩)
        exact O.trans hk he (htail.keys e' he') hless' (hhead e' he')
      rw [if_pos hless', List.mem_cons, Prod.mk.injEq]
      refine or_congr_right ⟨fun hmem => ⟨?_, hmem⟩, fun hmem => hmem.2⟩
      rintro rfl
      exact hnone hmem
    · obtain rfl : e.1 = k := O.antisymm he hk (by simpa using hless) (by simpa using hless')
      rw [if_neg hless', List.mem_cons, List.mem_cons, Prod.mk.injEq]
      refine or_congr_right ⟨fun hmem => ⟨?_, .inr hmem⟩, fun hmem => ?_⟩
      · rintro rfl
        exact O.notMem hk hhead hmem
      · obtain ⟨hne, rfl | hmem⟩ := hmem
        · exact absurd rfl hne
        · exact hmem

lemma ordered_insert (h : Ordered less admissible m) (hk : admissible k) :
    Ordered less admissible (insert less k v m) := by
  induction m with
  | nil => exact ordered_cons_iff.mpr ⟨hk, by simp, ⟨by simp, .nil⟩⟩
  | cons e m ih =>
    obtain ⟨he, hhead, htail⟩ := ordered_cons_iff.mp h
    rw [insert]
    by_cases hless : less e.1 k = true
    · rw [if_pos hless]
      refine ordered_cons_iff.mpr ⟨he, fun e' he' => ?_, ih htail⟩
      rcases (O.mem_insert htail hk).mp he' with ⟨rfl, -⟩ | ⟨-, he'⟩
      · exact hless
      · exact hhead e' he'
    rw [if_neg hless]
    by_cases hless' : less k e.1 = true
    · rw [if_pos hless']
      refine ordered_cons_iff.mpr ⟨hk, List.forall_mem_cons.mpr ⟨hless', fun e' he' => ?_⟩, h⟩
      exact O.trans hk he (htail.keys e' he') hless' (hhead e' he')
    · rw [if_neg hless']
      exact ordered_cons_iff.mpr ⟨he, hhead, htail⟩

lemma represents_insert [DecidableEq κ] (h : Represents less admissible m f) (hk : admissible k) :
    Represents less admissible (insert less k v m) (Function.update f k (some v)) := by
  refine ⟨O.ordered_insert h.toOrdered hk, fun k' v' => ?_⟩
  rw [O.mem_insert h.toOrdered hk, Function.update_apply, ← h.holds]
  by_cases hk' : k' = k
  · simp [hk', eq_comm]
  · simp [hk']

/-! ### Removal -/

lemma mem_erase (h : Ordered less admissible m) (hk : admissible k) :
    (k', v') ∈ erase less k m ↔ k' ≠ k ∧ (k', v') ∈ m := by
  induction m with
  | nil => simp [erase]
  | cons e m ih =>
    obtain ⟨he, hhead, htail⟩ := ordered_cons_iff.mp h
    rw [erase]
    by_cases hless : less e.1 k = true
    · have hne : e.1 ≠ k := O.ne_of_less he hless
      rw [if_pos hless, List.mem_cons, List.mem_cons, ih htail]
      constructor
      · rintro (rfl | ⟨hk', h⟩)
        · exact ⟨hne, .inl rfl⟩
        · exact ⟨hk', .inr h⟩
      · rintro ⟨hk', rfl | h⟩
        · exact .inl rfl
        · exact .inr ⟨hk', h⟩
    rw [if_neg hless]
    by_cases hless' : less k e.1 = true
    · rw [if_pos hless']
      refine ⟨fun hmem => ⟨?_, hmem⟩, fun hmem => hmem.2⟩
      rintro rfl
      refine O.notMem hk (List.forall_mem_cons.mpr ⟨hless', fun e' he' => ?_⟩) hmem
      exact O.trans hk he (htail.keys e' he') hless' (hhead e' he')
    · obtain rfl : e.1 = k := O.antisymm he hk (by simpa using hless) (by simpa using hless')
      rw [if_neg hless', List.mem_cons]
      refine ⟨fun hmem => ⟨?_, .inr hmem⟩, fun hmem => ?_⟩
      · rintro rfl
        exact O.notMem hk hhead hmem
      · obtain ⟨hne, rfl | hmem⟩ := hmem
        · exact absurd rfl hne
        · exact hmem

omit O in
lemma erase_sublist (less : κ → κ → Bool) (k : κ) (m : List (κ × β)) : (erase less k m).Sublist m := by
  induction m with
  | nil => exact .slnil
  | cons e m ih =>
    rw [erase]
    split
    · exact ih.cons_cons e
    · split
      · exact .refl _
      · exact List.sublist_cons_self e m

lemma represents_erase [DecidableEq κ] (h : Represents less admissible m f) (hk : admissible k) :
    Represents less admissible (erase less k m) (Function.update f k none) := by
  have hsub := erase_sublist less k m
  refine ⟨⟨fun e he => h.keys e (hsub.subset he), h.increasing.sublist hsub⟩, fun k' v' => ?_⟩
  rw [O.mem_erase h.toOrdered hk, Function.update_apply, ← h.holds]
  by_cases hk' : k' = k
  · simp [hk']
  · simp [hk']

/-! ### Lookup -/

lemma find_eq (h : Represents less admissible m f) (hk : admissible k) :
    find less k m = (f k).map fun v => (k, v) := by
  cases hv : f k with
  | none =>
    refine List.find?_eq_none.mpr fun e he hsame => ?_
    simp only [Bool.and_eq_true, Bool.not_eq_true'] at hsame
    obtain rfl := O.antisymm (h.keys e he) hk hsame.1 hsame.2
    rw [(h.holds e.1 e.2).mpr he] at hv
    cases hv
  | some v =>
    have hmem := (h.holds k v).mp hv
    obtain ⟨e, he⟩ : ∃ e, find less k m = some e := by
      refine Option.isSome_iff_exists.mp (List.find?_isSome.mpr ⟨_, hmem, ?_⟩)
      simp [O.irrefl hk]
    have hsame := List.find?_some he
    simp only [Bool.and_eq_true, Bool.not_eq_true'] at hsame
    have hmem' := List.mem_of_find?_eq_some he
    obtain rfl := O.antisymm (h.keys e hmem') hk hsame.1 hsame.2
    rw [he, O.unique h.toOrdered hmem hmem']
    rfl

/-! ### What is determined -/

/-- What a map holds determines it. -/
theorem represents_unique (h : Represents less admissible m f) (h' : Represents less admissible m' f) : m = m' := by
  have hnodup {l : List (κ × β)} (hl : Ordered less admissible l) : l.Nodup := by
    refine hl.increasing.imp_of_mem fun he _ hless heq => ?_
    exact O.ne_of_less (hl.keys _ he) hless (congrArg Prod.fst heq)
  have hmem (e : κ × β) : e ∈ m ↔ e ∈ m' := (h.holds e.1 e.2).symm.trans (h'.holds e.1 e.2)
  have hperm := (List.perm_ext_iff_of_nodup (hnodup h.toOrdered) (hnodup h'.toOrdered)).mpr hmem
  refine hperm.eq_of_pairwise (fun e e' he he' hless hless' => ?_) h.increasing h'.increasing
  have hk := h.keys e he
  exact absurd rfl (O.ne_of_less hk (O.trans hk (h'.keys e' he') hk hless hless'))

/-- The length counts the keys. -/
lemma length_eq (h : Represents less admissible m f) : m.length = {k | f k ≠ none}.ncard := by
  classical
  have hkeys : (m.map Prod.fst).Nodup := by
    refine List.pairwise_map.mpr (h.increasing.imp_of_mem fun he _ hless => ?_)
    exact O.ne_of_less (h.keys _ he) hless
  have hset : {k | f k ≠ none} = ((m.map Prod.fst).toFinset : Set κ) := by
    ext k
    simp only [Set.mem_ofPred_eq, Option.ne_none_iff_exists', List.coe_toFinset, h.holds, List.mem_map,
      Prod.exists, exists_and_right, exists_eq_right]
  rw [hset, Set.ncard_coe_finset, List.toFinset_card_of_nodup hkeys, List.length_map]

end Orders

end YastCore.StdMap
