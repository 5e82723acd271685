import Mathlib.Algebra.Order.BigOperators.Group.List
import Mathlib.Algebra.Order.Ring.Nat
import YastCore.Lib.Loop
import YastCore.Type.Unflex

/-!
# Resolving flex types

`Type::determineFlexType` puts the types of actual arguments in place of the flexes of a declared
function, one number after the other.
-/

namespace YastCore.YType

open Loop

/-! ### The loop -/

/-- The variables of the loop. -/
structure Resolution where
  declared : YType
  flexnumber : Nat

/-- One pass of the loop of `determineFlexType`. Number 0 may be missing, the others end it. -/
def flexPass (actual : YType) (s : Resolution) : Pass Resolution YType :=
  match s.declared.matchFlex actual s.flexnumber with
  | none =>
    if s.flexnumber = 0 then .again ⟨s.declared, s.flexnumber + 1⟩ else .returns s s.declared
  | some flextype =>
    match s.declared.unflex flextype s.flexnumber with
    | none => .crashes
    | some result => .again ⟨result, s.flexnumber + 1⟩

/-- The types of the parameters. -/
def parameters : YType → List YType
  | functionT _ arguments _ => arguments
  | _ => []

/-- `determineFlexType` comes back with this result; none is the null pointer. -/
def DeterminesFlexType (actual declared : YType) (result : Option YType) : Prop :=
  if declared.parameters.length ≤ 0 then result = none
  else ∃ s r, Returns (flexPass actual) ⟨declared, 0⟩ s r ∧ result = some r

/-! ### Flexes that can be reached -/

section Pass

variable {u : YType} {n : Nat}

/-- `flex` or one with a number. -/
def isFlexType : YType → Bool
  | flexT _ => true
  | nFlexT _ _ => true
  | _ => false

mutual

/-- Inside a map no flex stands deeper than as the key or the value, and a flex key has a smaller number
than a flex value. A `flex` is none of the plain types. -/
def resolvable : YType → Bool
  | base k _ => k != .flexT
  | flexT _ => true
  | nFlexT _ _ => true
  | variableT t _ => resolvable t
  | listT t _ => resolvable t
  | mapT k v _ =>
    (k.flexes.isEmpty || isFlexType k) && (v.flexes.isEmpty || isFlexType v) &&
      k.flexes.all fun a => v.flexes.all fun b => decide (a < b)
  | blockT t _ => resolvable t
  | tupleT types _ => resolvableList types
  | functionT r arguments _ => resolvable r && resolvableList arguments

def resolvableList : List YType → Bool
  | [] => true
  | t :: types => resolvable t && resolvableList types

end

/-- From pass `n` on all flexes are replaced, if they are found. -/
def Reachable (n : Nat) (t : YType) : Prop := t.resolvable = true ∧ ∀ m ∈ t.flexes, n ≤ m

lemma resolvableList_iff {types : List YType} :
    resolvableList types = true ↔ ∀ t ∈ types, t.resolvable = true := by
  induction types with
  | nil => simp [resolvableList]
  | cons t types ih => simp [resolvableList, ih]

lemma reachable_mapT {n : Nat} {k v : YType} {q : Qualifiers} :
    Reachable n (mapT k v q) ↔
      (k.flexes = [] ∨ isFlexType k = true) ∧ (v.flexes = [] ∨ isFlexType v = true) ∧
        (∀ a ∈ k.flexes, ∀ b ∈ v.flexes, a < b) ∧ (∀ a ∈ k.flexes, n ≤ a) ∧ ∀ b ∈ v.flexes, n ≤ b := by
  simp only [Reachable, resolvable, flexes, Bool.and_eq_true, Bool.or_eq_true, List.isEmpty_iff,
    List.all_eq_true, decide_eq_true_eq, List.forall_mem_append, and_assoc]

lemma reachable_tupleT {n : Nat} {types : List YType} {q : Qualifiers} :
    Reachable n (tupleT types q) ↔ ∀ t ∈ types, Reachable n t := by
  rw [Reachable, resolvable, flexes, resolvableList_iff, flexesList_eq_flatMap, List.forall_mem_flatMap,
    ← forall₂_and]
  rfl

lemma reachable_functionT {n : Nat} {r : YType} {types : List YType} {q : Qualifiers} :
    Reachable n (functionT r types q) ↔ Reachable n r ∧ ∀ t ∈ types, Reachable n t := by
  rw [← reachable_tupleT (q := q), Reachable, resolvable, flexes, Bool.and_eq_true, List.forall_mem_append,
    and_and_and_comm]
  rfl

lemma forall_reachable {n n' : Nat} {types types' : List YType}
    (h : List.Forall₂ (fun t t' => Reachable n' t' ↔ Reachable n t) types types') :
    (∀ t ∈ types', Reachable n' t) ↔ ∀ t ∈ types, Reachable n t := by
  induction h with
  | nil => simp
  | cons hhead _ ih => rw [List.forall_mem_cons, List.forall_mem_cons, hhead, ih]

lemma resolvable_of_flexes_eq_nil {t : YType} (ht : t.flexes = []) : t.resolvable = true := by
  induction t using YType.induct with
  | base k q =>
    rw [resolvable, bne_iff_ne]
    rintro rfl
    cases ht
  | flexT q => rfl
  | nFlexT n q => rfl
  | variableT t q ih => exact ih ht
  | listT t q ih => exact ih ht
  | mapT k v q _ _ =>
    rw [flexes, List.append_eq_nil_iff] at ht
    simp [resolvable, ht.1, ht.2]
  | blockT t q ih => exact ih ht
  | tupleT types q ih =>
    rw [flexes, flexesList_eq_flatMap, List.flatMap_eq_nil_iff] at ht
    rw [resolvable, resolvableList_iff]
    exact fun t hmem => ih t hmem (ht t hmem)
  | functionT r arguments q ihr ih =>
    rw [flexes, flexesList_eq_flatMap, List.append_eq_nil_iff, List.flatMap_eq_nil_iff] at ht
    rw [resolvable, Bool.and_eq_true, resolvableList_iff]
    exact ⟨ihr ht.1, fun t hmem => ih t hmem (ht.2 t hmem)⟩

lemma reachable_of_flexes_eq_nil {t : YType} (ht : t.flexes = []) (m : Nat) : Reachable m t := by
  refine ⟨resolvable_of_flexes_eq_nil ht, ?_⟩
  rw [ht]
  exact List.forall_mem_nil _

lemma reachable_of_flex {flex : YType} {m a : Nat} (hflex : isFlexType flex = true)
    (ha : flex.flexes = [a]) : Reachable m flex ↔ m ≤ a := by
  have hresolvable : flex.resolvable = true := by
    cases flex <;> first | rfl | cases hflex
  rw [Reachable, ha]
  simp [hresolvable]

/-- A flex is replaced or stays a flex. -/
lemma unflex_isFlexType (hu : u.flexes = []) {flex r : YType} (hflex : isFlexType flex = true)
    (h : unflex flex u n = some r) :
    ∃ a, flex.flexes = [a] ∧
      ((a = n ∧ r.flexes = []) ∨ (a ≠ n ∧ r.flexes = [a] ∧ isFlexType r = true)) := by
  have hplaced (q : Qualifiers) (h : inPlaceOf q u = some r) : r.flexes = [] := by
    rw [inPlaceOf_eq] at h
    split at h
    · cases h
      rw [flexes_setQualifiers, hu]
    · cases h
  cases flex with
  | flexT q =>
    refine ⟨0, rfl, ?_⟩
    rw [unflex] at h
    split at h
    next hn => exact Or.inl ⟨hn.symm, hplaced q h⟩
    next hn =>
      cases h
      exact Or.inr ⟨Ne.symm hn, rfl, rfl⟩
  | nFlexT m q =>
    refine ⟨m, rfl, ?_⟩
    rw [unflex] at h
    split at h
    next hm => exact Or.inl ⟨hm, hplaced q h⟩
    next hm =>
      cases h
      exact Or.inr ⟨hm, rfl, rfl⟩
  | _ => cases hflex

/-- A plain type that is a flex is no flex type, and is never replaced. -/
lemma unflex_isFlex {flex r : YType} (hflex : flex.isFlex = true) (hplain : isFlexType flex = false)
    (h : unflex flex u n = some r) :
    flex.flexes ≠ [] ∧ r.flexes ≠ [] ∧ isFlexType r = false := by
  cases flex with
  | base k q =>
    obtain rfl : k = .flexT := beq_iff_eq.mp hflex
    cases h
    exact ⟨List.cons_ne_nil _ _, List.cons_ne_nil _ _, rfl⟩
  | flexT q => cases hplain
  | nFlexT m q => cases hplain
  | _ => cases hflex

lemma not_isFlexType {t : YType} (ht : t.isFlex = false) : isFlexType t = false := by
  cases t <;> first | rfl | cases ht

/-- A pass takes away one flex, where it reaches all of it. -/
lemma reachable_unflex (hu : u.flexes = []) {t r : YType} (h : unflex t u n = some r) :
    Reachable (n + 1) r ↔ Reachable n t := by
  have hplaced (q : Qualifiers) : Reachable (n + 1) (u.setQualifiers q) :=
    reachable_of_flexes_eq_nil (by rw [flexes_setQualifiers, hu]) _
  refine unflex_induct (motive := fun t r => Reachable (n + 1) r ↔ Reachable n t) ?base ?flexT
    ?otherFlexT ?nFlexT ?otherNFlexT ?variableT ?listT ?blockT ?key ?value ?neither ?tupleT ?functionT h
  case base =>
    intro k q
    by_cases hk : k = .flexT
    · simp [Reachable, resolvable, hk]
    · simp [Reachable, resolvable, flexes, hk]
  case flexT =>
    intro q hn
    exact iff_of_true (hplaced q) ((reachable_of_flex rfl rfl).mpr (Nat.le_of_eq hn))
  case otherFlexT =>
    intro q hn
    rw [reachable_of_flex rfl rfl, reachable_of_flex rfl rfl]
    omega
  case nFlexT =>
    intro q
    exact iff_of_true (hplaced q) ((reachable_of_flex rfl rfl).mpr (Nat.le_refl n))
  case otherNFlexT =>
    intro m q hm
    rw [reachable_of_flex rfl rfl, reachable_of_flex rfl rfl]
    omega
  case variableT | listT | blockT =>
    intro t t' q ih
    exact ih
  case key =>
    intro k k' v q hk hk' _
    rw [reachable_mapT, reachable_mapT]
    cases hflex : isFlexType k with
    | false =>
      obtain ⟨hne, hne', hflex'⟩ := unflex_isFlex hk hflex hk'
      simp [hne, hne', hflex']
    | true =>
      obtain ⟨a, ha, ⟨rfl, hr⟩ | ⟨hne, hr, hflex'⟩⟩ := unflex_isFlexType hu hflex hk'
      · rw [ha, hr]
        simp only [List.forall_mem_singleton, true_and, true_or, or_true, Nat.succ_le_iff, Nat.le_refl]
        refine and_congr_right fun _ => ⟨fun hless => ?_, fun hless =>
          ⟨List.forall_mem_nil _, List.forall_mem_nil _, hless.1⟩⟩
        exact ⟨hless.2.2, fun b hb => Nat.le_of_lt (hless.2.2 b hb)⟩
      · rw [ha, hr, hflex']
        simp only [List.forall_mem_singleton]
        refine and_congr_right fun _ => and_congr_right fun _ => and_congr_right fun hless => ?_
        constructor
        · rintro ⟨hn, hv⟩
          exact ⟨by omega, fun b hb => Nat.le_of_succ_le (hv b hb)⟩
        · rintro ⟨hn, -⟩
          exact ⟨by omega, fun b hb => by have := hless b hb; omega⟩
  case value =>
    intro k v v' q hk hv hv' _
    rw [reachable_mapT, reachable_mapT, not_isFlexType hk]
    cases hflex : isFlexType v with
    | false =>
      obtain ⟨hne, hne', hflex'⟩ := unflex_isFlex hv hflex hv'
      simp [hne, hne', hflex']
    | true =>
      obtain ⟨b, hb, ⟨rfl, hr⟩ | ⟨hne, hr, hflex'⟩⟩ := unflex_isFlexType hu hflex hv'
      · rw [hb, hr]
        grind
      · rw [hb, hr, hflex']
        grind
  case neither =>
    intro k v q hk hv
    rw [reachable_mapT, reachable_mapT, not_isFlexType hk, not_isFlexType hv]
    grind
  case tupleT =>
    intro types types' q ih
    rw [reachable_tupleT, reachable_tupleT]
    exact forall_reachable ih
  case functionT =>
    intro r r' types types' q ihr ih
    rw [reachable_functionT, reachable_functionT, ihr, forall_reachable ih]

end Pass

/-! ### The loop ends -/

lemma flexPass_of_none {actual : YType} {s : Resolution}
    (h : s.declared.matchFlex actual s.flexnumber = none) :
    flexPass actual s =
      if s.flexnumber = 0 then .again ⟨s.declared, s.flexnumber + 1⟩ else .returns s s.declared := by
  rw [flexPass, h]

lemma flexPass_of_some {actual τ r : YType} {s : Resolution}
    (h : s.declared.matchFlex actual s.flexnumber = some τ)
    (hr : s.declared.unflex τ s.flexnumber = some r) :
    flexPass actual s = .again ⟨r, s.flexnumber + 1⟩ := by
  simp only [flexPass, h, hr]

/-- What a pass that goes on has done. -/
lemma flexPass_again {actual : YType} {s s' : Resolution} (h : flexPass actual s = .again s') :
    s'.flexnumber = s.flexnumber + 1 ∧
      ((s.flexnumber = 0 ∧ s'.declared = s.declared) ∨
        ∃ τ, s.declared.matchFlex actual s.flexnumber = some τ ∧
          s.declared.unflex τ s.flexnumber = some s'.declared) := by
  rw [flexPass] at h
  split at h
  next =>
    split at h
    next hn =>
      cases h
      exact ⟨rfl, Or.inl ⟨hn, rfl⟩⟩
    next => cases h
  next τ hτ =>
    split at h
    next => cases h
    next r hr =>
      cases h
      exact ⟨rfl, Or.inr ⟨τ, hτ, hr⟩⟩

/-- No number above those in the two types is ever found. -/
theorem ends_flexPass (actual declared : YType) : Ends (flexPass actual) ⟨declared, 0⟩ := by
  obtain ⟨N, hN⟩ : ∃ N, ∀ m ∈ declared.flexes ++ actual.flexes, m ≤ N :=
    ⟨(declared.flexes ++ actual.flexes).sum, fun m hm => List.le_sum_of_mem hm⟩
  rw [List.forall_mem_append] at hN
  refine ends_of_measure (fun s => N + 2 - s.flexnumber) (fun s => ∀ m ∈ s.declared.flexes, m ≤ N) ?_ hN.1
  intro s s' hs hagain
  obtain ⟨hnumber, ⟨hzero, hsame⟩ | ⟨τ, hτ, hr⟩⟩ := flexPass_again hagain
  · rw [hsame]
    exact ⟨hs, by omega⟩
  · obtain ⟨hmem, hparts⟩ := foundIn_matchFlex hτ
    have hbound := hs _ hmem
    refine ⟨fun m hm => ?_, by omega⟩
    exact ((keepsFlexes_unflex hr).2 m hm).elim (hs m) (hparts _ (partClosed_flexes (· ≤ N)) hN.2 m)

/-! ### What is left -/

section Run

variable {actual : YType}

/-- From pass `n` on every flex is found in time and reached. -/
def ResolvedFrom (actual : YType) (n : Nat) (t : YType) : Prop :=
  Reachable n t ∧ ∀ m ∈ t.flexes, ∀ k, n ≤ k → k ≤ m → (matchFlex t actual k).isSome = true

/-- What the arguments give for the flexes from number `n` on holds no flexes itself. -/
def Determinate (actual : YType) (n : Nat) (t : YType) : Prop :=
  ∀ m τ, n ≤ m → matchFlex t actual m = some τ → τ.flexes = []

lemma resolvedFrom_of_flexes_eq_nil {t : YType} (ht : t.flexes = []) (n : Nat) :
    ResolvedFrom actual n t := by
  refine ⟨reachable_of_flexes_eq_nil ht n, ?_⟩
  rw [ht]
  exact List.forall_mem_nil _

/-- One pass that finds its flex. -/
lemma resolvedFrom_unflex {t τ r : YType} {n : Nat} (hτ : τ.flexes = [])
    (hfound : matchFlex t actual n = some τ) (h : unflex t τ n = some r) :
    ResolvedFrom actual (n + 1) r ↔ ResolvedFrom actual n t := by
  obtain ⟨hkept, hold⟩ := keepsFlexes_unflex h
  have hsame (k : Nat) (hk : n + 1 ≤ k) : matchFlex r actual k = matchFlex t actual k :=
    matchFlex_unflex hτ (by omega) h actual
  rw [ResolvedFrom, ResolvedFrom, reachable_unflex hτ h]
  refine and_congr_right fun hreachable => ⟨fun hall m hm k hnk hkm => ?_, fun hall m hm k hnk hkm => ?_⟩
  · obtain rfl | hlt := Nat.eq_or_lt_of_le hnk
    · rw [hfound]
      rfl
    · rw [← hsame k hlt]
      exact hall m (hkept m hm (by omega)) k hlt hkm
  · rw [hsame k hnk]
    have hmem : m ∈ t.flexes := (hold m hm).resolve_right (by rw [hτ]; exact List.not_mem_nil)
    exact hall m hmem k (by omega) hkm

lemma determinate_unflex {t τ r : YType} {n : Nat} (ht : Determinate actual n t) (hτ : τ.flexes = [])
    (h : unflex t τ n = some r) : Determinate actual (n + 1) r := by
  intro m τ' hm hfound
  rw [matchFlex_unflex hτ (by omega) h] at hfound
  exact ht m τ' (by omega) hfound

/-- What the loop makes of `t` from pass `n` on. -/
def Leads (actual : YType) (n : Nat) (t r : YType) : Prop :=
  (r.flexes = [] ↔ ResolvedFrom actual n t) ∧ (r.flexes = [] → ∃ σ, r.bare = (substitute σ t).bare)

/-- A pass that finds its flex. -/
lemma leads_of_found {t τ t' r : YType} {n : Nat} (hτ : τ.flexes = [])
    (hfound : matchFlex t actual n = some τ) (h : unflex t τ n = some t')
    (hleads : Leads actual (n + 1) t' r) : Leads actual n t r := by
  refine ⟨hleads.1.trans (resolvedFrom_unflex hτ hfound h), fun hnil => ?_⟩
  obtain ⟨σ, hσ⟩ := hleads.2 hnil
  have hgone : n ∉ t'.flexes := fun hmem => by
    have hle := (hleads.1.mp hnil).1.2 n hmem
    omega
  refine ⟨fun m => (single n τ m).or (σ m), ?_⟩
  rw [hσ, bare_substitute, bare_unflex h hgone, ← bare_substitute, substitute_substitute (single_flexes hτ)]

/-- The pass that ends the loop. -/
lemma leads_of_none {t : YType} {n : Nat} (hfound : matchFlex t actual n = none) : Leads actual n t t := by
  refine ⟨⟨fun ht => resolvedFrom_of_flexes_eq_nil ht n, fun ⟨hreachable, hall⟩ => ?_⟩, fun _ => ?_⟩
  · rw [List.eq_nil_iff_forall_not_mem]
    intro m hm
    have hsome := hall m hm n (Nat.le_refl n) (hreachable.2 m hm)
    rw [hfound] at hsome
    cases hsome
  · exact ⟨fun _ => none, by rw [substitute_eq_self fun _ _ => rfl]⟩

/-- A pass that finds its flex goes on with what `unflex` gives. -/
lemma returns_of_found {t τ r : YType} {n : Nat} {s : Resolution} (hfound : matchFlex t actual n = some τ)
    {fuel : Nat} (hreturns : passes (flexPass actual) (fuel + 1) ⟨t, n⟩ = .returns s r) :
    ∃ t', unflex t τ n = some t' ∧ passes (flexPass actual) fuel ⟨t', n + 1⟩ = .returns s r := by
  cases hr : unflex t τ n with
  | none =>
    have hpass : flexPass actual ⟨t, n⟩ = .crashes := by simp only [flexPass, hfound, hr]
    rw [passes_of_crashes hpass] at hreturns
    cases hreturns
  | some t' =>
    rw [passes_of_again (flexPass_of_some hfound hr)] at hreturns
    exact ⟨t', rfl, hreturns⟩

/-- The passes from number `n` on, to the end of the loop. -/
lemma leads_of_passes {t r : YType} {n : Nat} {s : Resolution} (hn : n ≠ 0)
    (hdeterminate : Determinate actual n t) {fuel : Nat}
    (hreturns : passes (flexPass actual) fuel ⟨t, n⟩ = .returns s r) : Leads actual n t r := by
  induction fuel generalizing t n with
  | zero => cases hreturns
  | succ fuel ih =>
    cases hfound : matchFlex t actual n with
    | none =>
      have hpass : flexPass actual ⟨t, n⟩ = .returns ⟨t, n⟩ t := (flexPass_of_none hfound).trans (if_neg hn)
      rw [passes_of_returns hpass] at hreturns
      cases hreturns
      exact leads_of_none hfound
    | some τ =>
      have hτ : τ.flexes = [] := hdeterminate n τ (Nat.le_refl n) hfound
      obtain ⟨t', ht', hrest⟩ := returns_of_found hfound hreturns
      have hnext := determinate_unflex hdeterminate hτ ht'
      exact leads_of_found hτ hfound ht' (ih (Nat.succ_ne_zero n) hnext hrest)

/-- Every flex is found, and no number below it is missing. Number 0 need not occur. -/
def AllFound (actual t : YType) : Prop :=
  ∀ m ∈ t.flexes, (matchFlex t actual m).isSome = true ∧
    ∀ k, 0 < k → k < m → (matchFlex t actual k).isSome = true

/-- Only flexes that occur are found. -/
lemma allFound_iff {t : YType} :
    AllFound actual t ↔ (∀ n ∈ t.flexes, (matchFlex t actual n).isSome = true) ∧
      ∀ n ∈ t.flexes, ∀ k, 0 < k → k < n → k ∈ t.flexes := by
  constructor
  · intro h
    refine ⟨fun n hn => (h n hn).1, fun n hn k hk hkn => ?_⟩
    obtain ⟨τ, hτ⟩ := Option.isSome_iff_exists.mp ((h n hn).2 k hk hkn)
    exact (foundIn_matchFlex hτ).1
  · rintro ⟨hfound, hgap⟩ n hn
    exact ⟨hfound n hn, fun k hk hkn => hfound k (hgap n hn k hk hkn)⟩

lemma resolvedFrom_one_iff {t : YType} (hfound : matchFlex t actual 0 = none) :
    ResolvedFrom actual 1 t ↔ t.resolvable = true ∧ AllFound actual t := by
  constructor
  · rintro ⟨⟨hresolvable, hpos⟩, hall⟩
    refine ⟨hresolvable, fun m hm => ⟨hall m hm m (hpos m hm) (Nat.le_refl m), fun k hk hkm => ?_⟩⟩
    exact hall m hm k hk (Nat.le_of_lt hkm)
  · rintro ⟨hresolvable, hall⟩
    have hpos (m : Nat) (hm : m ∈ t.flexes) : 1 ≤ m := by
      refine Nat.pos_of_ne_zero ?_
      rintro rfl
      have hsome := (hall 0 hm).1
      rw [hfound] at hsome
      cases hsome
    refine ⟨⟨hresolvable, hpos⟩, fun m hm k hk hkm => ?_⟩
    obtain rfl | hlt := Nat.eq_or_lt_of_le hkm
    · exact (hall k hm).1
    · exact (hall m hm).2 k hk hlt

lemma resolvedFrom_zero_iff {t τ : YType} (hfound : matchFlex t actual 0 = some τ) :
    ResolvedFrom actual 0 t ↔ t.resolvable = true ∧ AllFound actual t := by
  constructor
  · rintro ⟨⟨hresolvable, _⟩, hall⟩
    refine ⟨hresolvable, fun m hm => ⟨hall m hm m (Nat.zero_le m) (Nat.le_refl m), fun k _ hkm => ?_⟩⟩
    exact hall m hm k (Nat.zero_le k) (Nat.le_of_lt hkm)
  · rintro ⟨hresolvable, hall⟩
    refine ⟨⟨hresolvable, fun m _ => Nat.zero_le m⟩, fun m hm k _ hkm => ?_⟩
    obtain rfl | hk := Nat.eq_zero_or_pos k
    · rw [hfound]
      rfl
    obtain rfl | hlt := Nat.eq_or_lt_of_le hkm
    · exact (hall k hm).1
    · exact (hall m hm).2 k hk hlt

/-- The whole loop: what it returns has no flexes if they are all found and reached, and is then the
declared type under one substitution. -/
theorem returns_flexPass {t r : YType} {s : Resolution} (hdeterminate : Determinate actual 0 t)
    (hreturns : Returns (flexPass actual) ⟨t, 0⟩ s r) :
    (r.flexes = [] ↔ t.resolvable = true ∧ AllFound actual t) ∧
      (r.flexes = [] → ∃ σ, r.bare = (substitute σ t).bare) := by
  cases hfound : matchFlex t actual 0 with
  | none =>
    have hpass : flexPass actual ⟨t, 0⟩ = .again ⟨t, 1⟩ := (flexPass_of_none hfound).trans (if_pos rfl)
    rw [returns_of_again hpass] at hreturns
    obtain ⟨fuel, hreturns⟩ := hreturns
    have hnext : Determinate actual 1 t := fun m τ _ => hdeterminate m τ (Nat.zero_le m)
    rw [← resolvedFrom_one_iff hfound]
    exact leads_of_passes Nat.one_ne_zero hnext hreturns
  | some τ =>
    have hτ : τ.flexes = [] := hdeterminate 0 τ (Nat.le_refl 0) hfound
    obtain ⟨fuel, hreturns⟩ := hreturns
    cases fuel with
    | zero => cases hreturns
    | succ fuel =>
      obtain ⟨t', ht', hrest⟩ := returns_of_found hfound hreturns
      have hnext := leads_of_passes Nat.one_ne_zero (determinate_unflex hdeterminate hτ ht') hrest
      rw [← resolvedFrom_zero_iff hfound]
      exact leads_of_found hτ hfound ht' hnext

end Run

/-! ### Declared and actual functions -/

section Functions

variable {r ra : YType} {types arguments : List YType} {q qa : Qualifiers}

/-- The parameters with their arguments. -/
abbrev Parameters := List (YType × YType)

/-- A parameter's argument determines the flex, and none gives it a type with flexes. -/
def Determined (parameters : Parameters) (n : Nat) : Prop :=
  (∃ p ∈ parameters, (matchFlex p.1 p.2 n).isSome = true) ∧
    ∀ p ∈ parameters, ∀ τ, matchFlex p.1 p.2 n = some τ → τ.flexes = []

/-- The result has no flexes, and its parameters are the declared ones under one substitution. -/
def ResolvesFlexes (actual declared : YType) : Prop :=
  ∃ result, DeterminesFlexType actual declared (some result) ∧ result.flexes = [] ∧
    ∃ σ, result.parameters.map bare = declared.parameters.map fun t => (substitute σ t).bare

/-- When all flexes can be resolved: there is a parameter, every flex is found before an argument of
error type, no number is left out but 0, and inside maps all flexes are reached. -/
structure Resolvable (declared : YType) (arguments : List YType) : Prop where
  parameters : declared.parameters ≠ []
  found : ∀ n ∈ declared.flexes,
    ∃ p ∈ (declared.parameters.zip arguments).takeWhile fun p => !p.2.isError,
      (matchFlex p.1 p.2 n).isSome = true
  noGap : ∀ n ∈ declared.flexes, ∀ k, 0 < k → k < n → k ∈ declared.flexes
  resolvable : declared.resolvable = true

/-- Arguments without flexes determine what they give a type for. -/
lemma determined_of_flexes_eq_nil {parameters : Parameters} {n : Nat}
    (hflexes : ∀ p ∈ parameters, p.2.flexes = [])
    (hfound : ∃ p ∈ parameters, (matchFlex p.1 p.2 n).isSome = true) : Determined parameters n := by
  refine ⟨hfound, fun p hp τ hτ => ?_⟩
  have hnone : ∀ m ∈ p.2.flexes, False := by
    rw [hflexes p hp]
    exact List.forall_mem_nil _
  exact List.eq_nil_iff_forall_not_mem.mpr ((foundIn_matchFlex hτ).2 _ (partClosed_flexes _) hnone)

lemma isSome_matchFlex_iff (n : Nat) :
    (matchFlex (functionT r types q) (functionT ra arguments qa) n).isSome = true ↔
      ∃ p ∈ (types.zip arguments).takeWhile fun p => !p.2.isError, (matchFlex p.1 p.2 n).isSome = true := by
  rw [matchFlex]
  constructor
  · intro h
    obtain ⟨τ, hτ⟩ := Option.isSome_iff_exists.mp h
    obtain ⟨p, hp, hmatch⟩ := matchFlexTypes_eq_some hτ
    exact ⟨p, hp, Option.isSome_iff_exists.mpr ⟨τ, hmatch⟩⟩
  · exact isSome_matchFlexTypes

lemma determinate_of_determined
    (hdetermined : ∀ n ∈ (functionT r types q).flexes, Determined (types.zip arguments) n) :
    Determinate (functionT ra arguments qa) 0 (functionT r types q) := by
  intro m τ _ hfound
  have hmem := (foundIn_matchFlex hfound).1
  rw [matchFlex] at hfound
  obtain ⟨p, hp, hmatch⟩ := matchFlexTypes_eq_some hfound
  exact (hdetermined m hmem).2 p ((List.takeWhile_prefix _).subset hp) τ hmatch

/-- The loop comes back, whatever the types are. -/
lemma exists_returns (hactual : (functionT ra arguments qa).constructed = true)
    {declared : YType} (hdeclared : declared.constructed = true) :
    ∃ s result, Returns (flexPass (functionT ra arguments qa)) ⟨declared, 0⟩ s result := by
  refine returns_of_ends (fun s => s.declared.constructed = true) ?_ hdeclared (ends_flexPass _ _)
  intro s hs
  cases hfound : matchFlex s.declared (functionT ra arguments qa) s.flexnumber with
  | none =>
    rw [flexPass_of_none hfound]
    split
    · exact ⟨nofun, fun t ht => by cases ht; exact hs⟩
    · exact ⟨nofun, nofun⟩
  | some τ =>
    have hτ := (foundIn_matchFlex hfound).2 _ partClosed_constructed hactual
    obtain ⟨result, hresult, hconstructed⟩ := unflex_constructed hτ hs
    rw [flexPass_of_some hfound hresult]
    exact ⟨nofun, fun t ht => by cases ht; exact hconstructed⟩

lemma bareList_parameters {result : YType} {σ : Nat → Option YType}
    (h : result.bare = (substitute σ (functionT r types q)).bare) :
    result.parameters.map bare = types.map fun t => (substitute σ t).bare := by
  cases result with
  | functionT r' types' q' =>
    rw [substitute, bare, bare, functionT.injEq, bareList_eq_map, bareList_eq_map, substituteList_eq_map,
      List.map_map] at h
    exact h.2.1
  | _ => cases h

/-- `determineFlexType` always ends. Where the arguments determine every flex, its result has none and
is the declared type under one substitution exactly if the flexes can be resolved. -/
theorem determineFlexType_resolves_iff (r ra : YType) (types arguments : List YType) (q qa : Qualifiers)
    (hdeclared : (functionT r types q).constructed = true)
    (hactual : (functionT ra arguments qa).constructed = true) :
    Ends (flexPass (functionT ra arguments qa)) ⟨functionT r types q, 0⟩ ∧
      ((∀ n ∈ (functionT r types q).flexes, Determined (types.zip arguments) n) →
        (ResolvesFlexes (functionT ra arguments qa) (functionT r types q) ↔
          Resolvable (functionT r types q) arguments)) := by
  refine ⟨ends_flexPass _ _, fun hdetermined => ?_⟩
  have hdeterminate : Determinate (functionT ra arguments qa) 0 (functionT r types q) :=
    determinate_of_determined hdetermined
  constructor
  · rintro ⟨result, hresult, hnil, -⟩
    rw [DeterminesFlexType] at hresult
    split at hresult
    next => cases hresult
    next hlength =>
      obtain ⟨s, result', hreturns, heq⟩ := hresult
      cases heq
      obtain ⟨hresolvable, hall⟩ := (returns_flexPass hdeterminate hreturns).1.mp hnil
      obtain ⟨hfound, hgap⟩ := allFound_iff.mp hall
      refine ⟨fun hempty => ?_, fun n hn => (isSome_matchFlex_iff n).mp (hfound n hn), hgap, hresolvable⟩
      exact hlength (Nat.le_of_eq (congrArg List.length hempty))
  · rintro ⟨hne, hfound, hgap, hresolvable⟩
    obtain ⟨s, result, hreturns⟩ := exists_returns hactual hdeclared
    obtain ⟨hiff, hsubstitute⟩ := returns_flexPass hdeterminate hreturns
    have hall : AllFound (functionT ra arguments qa) (functionT r types q) :=
      allFound_iff.mpr ⟨fun n hn => (isSome_matchFlex_iff n).mpr (hfound n hn), hgap⟩
    have hnil : result.flexes = [] := hiff.mpr ⟨hresolvable, hall⟩
    obtain ⟨σ, hσ⟩ := hsubstitute hnil
    refine ⟨result, ?_, hnil, σ, bareList_parameters hσ⟩
    rw [DeterminesFlexType, if_neg]
    · exact ⟨s, result, hreturns, rfl⟩
    · exact fun hle => hne (List.length_eq_zero_iff.mp (Nat.le_zero.mp hle))

/-- `flex (list <flex>, map <flex1, flex2>)` with a list of integers and a map from strings to
booleans. -/
theorem determineFlexType_resolves_list :
    let declared := functionT (flexT unqualified) [listT (flexT unqualified) unqualified,
      mapT (nFlexT 1 unqualified) (nFlexT 2 unqualified) unqualified] unqualified
    let actual := functionT (base .anyT unqualified) [listT (base .integerT unqualified) unqualified,
      mapT (base .stringT unqualified) (base .booleanT unqualified) unqualified] unqualified
    Ends (flexPass actual) ⟨declared, 0⟩ ∧ ResolvesFlexes actual declared := by
  intro declared actual
  obtain ⟨hends, hresolves⟩ := determineFlexType_resolves_iff (flexT unqualified)
    (base .anyT unqualified) declared.parameters actual.parameters unqualified unqualified rfl rfl
  have hflexes (n : Nat) (hn : n ∈ declared.flexes) : n = 0 ∨ n = 1 ∨ n = 2 := by
    simpa [declared, flexes, flexesList] using hn
  refine ⟨hends, (hresolves fun n hn => ?_).mpr ⟨List.cons_ne_nil _ _, fun n hn => ?_, ?_, rfl⟩⟩
  · refine determined_of_flexes_eq_nil (by decide) ?_
    obtain rfl | rfl | rfl := hflexes n hn
    · exact ⟨_, List.mem_cons_self, rfl⟩
    · exact ⟨_, List.mem_cons_of_mem _ List.mem_cons_self, rfl⟩
    · exact ⟨_, List.mem_cons_of_mem _ List.mem_cons_self, rfl⟩
  · obtain rfl | rfl | rfl := hflexes n hn
    · exact ⟨_, List.mem_cons_self, rfl⟩
    · exact ⟨_, List.mem_cons_of_mem _ List.mem_cons_self, rfl⟩
    · exact ⟨_, List.mem_cons_of_mem _ List.mem_cons_self, rfl⟩
  · intro n hn k hk hkn
    obtain rfl | rfl | rfl := hflexes n hn
    · omega
    · omega
    · obtain rfl : k = 1 := by omega
      decide

/-- `flex (map <string, list <flex>>)`: the list in the map keeps its flex. -/
theorem determineFlexType_not_resolves :
    ¬ ∀ (r ra : YType) (types arguments : List YType) (q qa : Qualifiers),
      (functionT r types q).constructed = true → (functionT ra arguments qa).constructed = true →
      Ends (flexPass (functionT ra arguments qa)) ⟨functionT r types q, 0⟩ ∧
        ((∀ n ∈ (functionT r types q).flexes, Determined (types.zip arguments) n) →
          ResolvesFlexes (functionT ra arguments qa) (functionT r types q)) := by
  intro h
  obtain ⟨-, hresolves⟩ := h (flexT unqualified) (base .anyT unqualified)
    [mapT (base .stringT unqualified) (listT (flexT unqualified) unqualified) unqualified]
    [mapT (base .stringT unqualified) (listT (base .integerT unqualified) unqualified) unqualified]
    unqualified unqualified rfl rfl
  have hdetermined : ∀ n ∈ (functionT (flexT unqualified)
      [mapT (base .stringT unqualified) (listT (flexT unqualified) unqualified) unqualified]
      unqualified).flexes, Determined ([mapT (base .stringT unqualified)
        (listT (flexT unqualified) unqualified) unqualified].zip [mapT (base .stringT unqualified)
        (listT (base .integerT unqualified) unqualified) unqualified]) n := by
    intro n hn
    obtain rfl : n = 0 := by simpa [flexes, flexesList] using hn
    exact determined_of_flexes_eq_nil (by decide) ⟨_, List.mem_cons_self, rfl⟩
  obtain ⟨result, hresult, hnil, -⟩ := hresolves hdetermined
  rw [DeterminesFlexType, if_neg (by decide)] at hresult
  obtain ⟨s, result', hreturns, heq⟩ := hresult
  cases heq
  have hresolvable := ((returns_flexPass (determinate_of_determined hdetermined) hreturns).1.mp hnil).1
  exact absurd hresolvable (by decide)

end Functions

end YastCore.YType
