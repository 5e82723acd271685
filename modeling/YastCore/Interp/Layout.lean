import YastCore.Interp.Relocated
import YastCore.Lib.Forest

/-!
# Trees laid out in programs

Code comes as trees, from the parser and from bytecode, and is evaluated at addresses. Where two programs hold
trees that are alike, the addresses that the trees are at, taken together from the roots down, correspond.
-/

namespace YastCore.Interp

open Forest Mirror

variable {P P' : Program} {r : Likeness} {root : CodePtr → CodePtr → Prop}

/-- The code at an address is a tree, in all that is evaluated of it. -/
inductive Placed (P : Program) : CodePtr → YCode → Prop where
  | null {p : CodePtr} (h : P.code p = none) : Placed P p .null
  | node {p : CodePtr} {n : Node CodePtr} {t : Node YCode} (hp : P.code p = some n)
      (h : Node.Like (Placed P) .same n t) : Placed P p (.node t)

namespace Program

/-- The addresses that evaluation may go on with. -/
def next (P : Program) (p : CodePtr) : List CodePtr := ((P.code p).map Node.evaluated).getD []

/-- Nothing is shared but the null pointer, which is 0. -/
structure Forest (P : Program) (root : CodePtr → Prop) : Prop where
  unshared : Unshared P.next (fun p => (P.code p).isSome = true) root
  root_null : ∀ {p}, root p → P.code p = none → p = 0
  next_null : ∀ {p q}, q ∈ P.next p → P.code q = none → q = 0

section

variable {nodes : List (Node CodePtr)} {symbol : EntryRef → SymbolInfo} {limit : Nat}

lemma next_ofNodes {p q : CodePtr} (h : q ∈ (ofNodes nodes symbol limit).next p) :
    p ∈ (List.range nodes.length).map (· + 1) ∧ q ∈ nodes.flatMap Node.evaluated := by
  unfold next ofNodes at h
  dsimp only at h
  split at h
  · simp at h
  · next hp =>
    cases hn : nodes[p - 1]? with
    | none => simp [hn] at h
    | some n =>
      obtain ⟨hlt, -⟩ := List.getElem?_eq_some_iff.mp hn
      refine ⟨List.mem_map.mpr ⟨p - 1, List.mem_range.mpr hlt, Nat.sub_add_cancel (Nat.pos_of_ne_zero hp)⟩, ?_⟩
      rw [hn] at h
      exact List.mem_flatMap.mpr ⟨n, List.mem_of_getElem? hn, h⟩

lemma flatMap_next_ofNodes :
    ((List.range nodes.length).map (· + 1)).flatMap (ofNodes nodes symbol limit).next =
      nodes.flatMap Node.evaluated := by
  rw [List.flatMap_map, List.flatMap_def, List.flatMap_def]
  congr 1
  refine List.ext_getElem (by simp) fun i hi hi' => ?_
  have hlt : i < nodes.length := by simpa using hi'
  simp [next, ofNodes, hlt]

/-- A program of nodes that are each pointed to once. -/
lemma forest_ofNodes {root : CodePtr → Prop} (hle : ∀ q ∈ nodes.flatMap Node.evaluated, q ≤ nodes.length)
    (hnodup : (nodes.flatMap Node.evaluated).Nodup)
    (hroot : ∀ p, root p → p ≤ nodes.length ∧ p ∉ nodes.flatMap Node.evaluated) :
    (ofNodes nodes symbol limit).Forest root := by
  have hnull {p : CodePtr} (hp : p ≤ nodes.length) (hnone : (ofNodes nodes symbol limit).code p = none) :
      p = 0 := by
    by_contra hne
    have hlt : p - 1 < nodes.length := (Nat.sub_one_lt hne).trans_le hp
    simp [ofNodes, hne, hlt] at hnone
  constructor
  · refine ⟨fun {p q} hq => ?_, fun {p q c i j} _ hp hq => ?_, fun {p c} _ hc hmem => ?_⟩
    · by_contra hne
      rw [Bool.not_eq_true, Option.isSome_eq_false_iff, Option.isNone_iff_eq_none] at hne
      simp [next, hne] at hq
    · refine parent_of_nodup (fun h => (next_ofNodes h).1) ?_ hp hq
      rwa [flatMap_next_ofNodes]
    · exact (hroot c hc).2 (next_ofNodes hmem).2
  · exact fun hp => hnull (hroot _ hp).1
  · exact fun hq => hnull (hle _ (next_ofNodes hq).2)
end

end Program

lemma Placed.next {p : CodePtr} {t : YCode} (h : Placed P p t) :
    List.Forall₂ (Placed P) (P.next p) t.evaluated := by
  cases h with
  | null hp => simp [Program.next, hp, YCode.evaluated]
  | node hp h =>
    rw [Program.next, hp]
    exact Node.Like.evaluated h

/-- The programs hold trees that are alike, from some roots on. -/
structure Layout (r : Likeness) (P P' : Program) (root : CodePtr → CodePtr → Prop) : Prop where
  tree : ∀ {p p'}, root p p' → ∃ t t', YCode.Like r t t' ∧ Placed P p t ∧ Placed P' p' t'
  root_unique : Relator.BiUnique root
  forest : P.Forest fun p => ∃ p', root p p'
  forest' : P'.Forest fun p' => ∃ p, root p p'

namespace Layout

/-- The pairs of addresses that are reached together. -/
abbrev Meets (P P' : Program) (root : CodePtr → CodePtr → Prop) : CodePtr → CodePtr → Prop :=
  Paired P.next P'.next root

variable (H : Layout r P P' root) {p p' q q' : CodePtr}
include H

/-- Below the roots there are trees that are alike, too. -/
lemma tree_of_meets (h : Meets P P' root p p') :
    ∃ t t', YCode.Like r t t' ∧ Placed P p t ∧ Placed P' p' t' := by
  induction h with
  | root h => exact H.tree h
  | step _ i hc hd ih =>
    obtain ⟨t, t', ht, hp, hp'⟩ := ih
    have hleft := forall₂_getElem? hp.next i
    have hmid := forall₂_getElem? ht.evaluated i
    have hright := forall₂_getElem? hp'.next i
    rw [hc] at hleft
    rw [hd] at hright
    generalize t.evaluated[i]? = o at hleft hmid
    generalize t'.evaluated[i]? = o' at hmid hright
    cases hleft with | some hleft =>
    cases hright with | some hright =>
    cases hmid with | some hmid =>
    exact ⟨_, _, hmid, hleft, hright⟩

lemma isSome_iff (h : Meets P P' root p p') : (P.code p).isSome = true ↔ (P'.code p').isSome = true := by
  obtain ⟨t, t', ht, hp, hp'⟩ := H.tree_of_meets h
  cases ht with
  | null =>
    cases hp with | null hp =>
    cases hp' with | null hp' => simp [hp, hp']
  | node ht =>
    cases hp with | node hp _ =>
    cases hp' with | node hp' _ => simp [hp, hp']

lemma eq_zero (h : Meets P P' root p p') (hp : P.code p = none) : p = 0 := by
  cases h with
  | root h => exact H.forest.root_null ⟨_, h⟩ hp
  | step _ i hc _ => exact H.forest.next_null (List.mem_of_getElem? hc) hp

lemma eq_zero' (h : Meets P P' root p p') (hp' : P'.code p' = none) : p' = 0 := by
  cases h with
  | root h => exact H.forest'.root_null ⟨_, h⟩ hp'
  | step _ i _ hd => exact H.forest'.next_null (List.mem_of_getElem? hd) hp'

lemma meets_biUnique : Relator.BiUnique (Meets P P' root) := by
  refine paired_biUnique H.forest.unshared H.forest'.unshared H.root_unique H.isSome_iff ?_
  intro p p' q q' hp hq hnone hnone'
  rw [Bool.not_eq_true, Option.isSome_eq_false_iff, Option.isNone_iff_eq_none] at hnone hnone'
  have hp' : P'.code p' = none := by
    have := (H.isSome_iff hp).not.mp (by simp [hnone])
    simpa using this
  have hq' : P'.code q' = none := by
    have := (H.isSome_iff hq).not.mp (by simp [hnone'])
    simpa using this
  rw [H.eq_zero hp hnone, H.eq_zero hq hnone', H.eq_zero' hp hp', H.eq_zero' hq hq']
  exact ⟨rfl, rfl⟩

/-- The code that two nodes go on with is reached together. -/
lemma meets_next (h : Meets P P' root p p') : List.Forall₂ (Meets P P' root) (P.next p) (P'.next p') := by
  obtain ⟨t, t', ht, hp, hp'⟩ := H.tree_of_meets h
  rw [List.forall₂_iff_get]
  refine ⟨(hp.next.length_eq.trans ht.evaluated.length_eq).trans hp'.next.length_eq.symm, fun i hi hi' => ?_⟩
  exact .step h i (List.getElem?_eq_getElem hi) (List.getElem?_eq_getElem hi')

/-- What is reached together corresponds, and so do the symbols that are alike. -/
def correspondence (hentry : Relator.BiUnique r.entry) : Correspondence where
  code := Meets P P' root
  entry := r.entry
  code_unique := H.meets_biUnique
  entry_unique := hentry

/-- Programs that hold trees that are alike are programs at other addresses. -/
theorem relocates {hentry : Relator.BiUnique r.entry}
    (hparts : r.Le (likeness (H.correspondence hentry) P P'))
    (hsurroundings : Surroundings (H.correspondence hentry) P P') :
    Relocates (H.correspondence hentry) P P' := by
  refine { hsurroundings with node := fun {p p'} h => ?_ }
  obtain ⟨t, t', ht, hp, hp'⟩ := H.tree_of_meets h
  cases ht with
  | null =>
    cases hp with | null hp =>
    cases hp' with | null hp' =>
    rw [hp, hp']
    exact .none
  | node ht =>
    cases hp with | node hn hlike =>
    cases hp' with | node hn' hlike' =>
    have hnext := H.meets_next h
    rw [Program.next, Program.next, hn, hn'] at hnext
    rw [hn, hn']
    exact .some (hlike.recode ht hlike' hparts hnext)

end Layout

end YastCore.Interp
