import Mathlib.Data.List.Nodup
import Mathlib.Data.List.Pairwise
import Mathlib.Logic.Relator

/-!
# Forests side by side

Two heaps of nodes are walked through together, from pairs of roots to pairs of successors at the same
position. Where the live nodes of both heaps form a forest, no node is met with two others.
-/

namespace YastCore

namespace Forest

variable {α β : Type}

/-- No two places point to the same live node, and none points to a root. -/
structure Unshared (succ : α → List α) (live root : α → Prop) : Prop where
  parent_live : ∀ {a c : α}, c ∈ succ a → live a
  parent : ∀ {a b c : α} {i j : Nat}, live c → (succ a)[i]? = some c → (succ b)[j]? = some c → a = b ∧ i = j
  root : ∀ {a c : α}, live c → root c → c ∉ succ a

/-- What the walk meets. -/
inductive Paired (succ : α → List α) (succ' : β → List β) (root : α → β → Prop) : α → β → Prop where
  | root {a : α} {b : β} (h : root a b) : Paired succ succ' root a b
  | step {a c : α} {b d : β} (h : Paired succ succ' root a b) (i : Nat) (hc : (succ a)[i]? = some c)
      (hd : (succ' b)[i]? = some d) : Paired succ succ' root c d

variable {succ : α → List α} {succ' : β → List β} {root : α → β → Prop} {live : α → Prop} {live' : β → Prop}

lemma Paired.flip {a : α} {b : β} (h : Paired succ succ' root a b) : Paired succ' succ (flip root) b a := by
  induction h with
  | root h => exact .root h
  | step _ i hc hd ih => exact .step ih i hd hc

lemma Paired.eq_of_live (h : Unshared succ live fun a => ∃ b, root a b) (hroot : Relator.RightUnique root) {a : α}
    {b b' : β} (hb : Paired succ succ' root a b) (hb' : Paired succ succ' root a b') (ha : live a) : b = b' := by
  induction hb generalizing b' with
  | root hab =>
    cases hb' with
    | root hab' => exact hroot hab hab'
    | step _ i hc _ => exact absurd (List.mem_of_getElem? hc) (h.root ha ⟨_, hab⟩)
  | step hp i hc hd ih =>
    cases hb' with
    | root hab' => exact absurd (List.mem_of_getElem? hc) (h.root ha ⟨_, hab'⟩)
    | step hp' j hc' hd' =>
      obtain ⟨rfl, rfl⟩ := h.parent ha hc hc'
      obtain rfl := ih hp' (h.parent_live (List.mem_of_getElem? hc))
      exact Option.some.inj (hd.symm.trans hd')

/-- The walk is one to one where dead nodes are. -/
theorem paired_biUnique (h : Unshared succ live fun a => ∃ b, root a b)
    (h' : Unshared succ' live' fun b => ∃ a, root a b)
    (hroot : Relator.BiUnique root) (hlive : ∀ {a b}, Paired succ succ' root a b → (live a ↔ live' b))
    (hdead : ∀ {a b a' b'}, Paired succ succ' root a b → Paired succ succ' root a' b' → ¬ live a → ¬ live a' →
      a = a' ∧ b = b') : Relator.BiUnique (Paired succ succ' root) := by
  constructor
  · intro a a' b ha ha'
    by_cases hb : live' b
    · exact Paired.eq_of_live h' (fun _ _ _ h₁ h₂ => hroot.1 h₁ h₂) ha.flip ha'.flip hb
    · exact (hdead ha ha' (fun hl => hb ((hlive ha).mp hl)) fun hl => hb ((hlive ha').mp hl)).1
  · intro a b b' hb hb'
    by_cases ha : live a
    · exact Paired.eq_of_live h hroot.2 hb hb' ha
    · exact (hdead hb hb' ha ha).2

/-- The successors of all nodes, one after the other, show that no node has two parents. -/
lemma parent_of_nodup {l : List α} (hl : ∀ {a c}, c ∈ succ a → a ∈ l) (hnodup : (l.flatMap succ).Nodup) {a b c : α}
    {i j : Nat} (ha : (succ a)[i]? = some c) (hb : (succ b)[j]? = some c) : a = b ∧ i = j := by
  rw [List.nodup_flatMap] at hnodup
  obtain ⟨hsucc, hdisjoint⟩ := hnodup
  have hca := List.mem_of_getElem? ha
  have hcb := List.mem_of_getElem? hb
  obtain rfl : a = b := by
    by_contra hne
    have : Std.Symm (Function.onFun List.Disjoint succ) := ⟨fun _ _ h _ hc hc' => h hc' hc⟩
    exact hdisjoint.forall (hl hca) (hl hcb) hne hca hcb
  refine ⟨rfl, ?_⟩
  obtain ⟨hi, hi'⟩ := List.getElem?_eq_some_iff.mp ha
  obtain ⟨hj, hj'⟩ := List.getElem?_eq_some_iff.mp hb
  exact ((hsucc a (hl hca)).getElem_inj_iff).mp (hi'.trans hj'.symm)

end Forest

end YastCore
