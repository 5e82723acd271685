import Mathlib.Data.List.Forall2
import YastCore.Lib.Discipline
import YastCore.Transport.Parser
import YastCore.Value.RoundTrip

/-!
# Code that stands for values

The constant evaluation of the nodes that the parser allocates. The code of a value evaluates to it,
also when the heap has grown.
-/

namespace YastCore.Transport

open Interp Lines

/-! ### Evaluations that succeed -/

/-- The computation returns this value in every state. -/
def Yields {α : Type} (x : M α) (a : α) : Prop := ∀ s, ∃ s', x s = .ok a s'

lemma yields_pure {α : Type} (a : α) : Yields (pure a : M α) a := fun s => ⟨s, rfl⟩

lemma Yields.bind {α β : Type} {x : M α} {a : α} {f : α → M β} {b : β} (hx : Yields x a)
    (hf : Yields (f a) b) : Yields (x >>= f) b := by
  intro s
  obtain ⟨s₁, h₁⟩ := hx s
  obtain ⟨s₂, h₂⟩ := hf s₁
  exact ⟨s₂, by rw [EState.bind_of_ok h₁, h₂]⟩

lemma yields_yeListLoop {ev : Evaluator} {ps : List CodePtr} {l : List YCPValue}
    (hps : List.Forall₂ (fun p v => Yields (ev true p) v ∧ v.isNull = false) ps l) (acc : List YCPValue) :
    Yields (yeListLoop ev true acc ps) (.list (acc ++ l)) := by
  induction hps generalizing acc with
  | nil =>
    rw [List.append_nil]
    exact yields_pure _
  | @cons p v ps l hv _ ih =>
    have hrest := ih (acc ++ [v])
    rw [List.append_assoc, List.singleton_append] at hrest
    refine hv.1.bind ?_
    rw [hv.2]
    exact hrest

lemma yields_yeTermLoop {ev : Evaluator} {name : Text} {ps : List CodePtr} {l : List YCPValue}
    (hps : List.Forall₂ (fun p v => Yields (ev true p) v ∧ v.isNull = false) ps l) (acc : List YCPValue) :
    Yields (yeTermLoop ev true name acc ps) (.term name (acc ++ l)) := by
  induction hps generalizing acc with
  | nil =>
    rw [List.append_nil]
    exact yields_pure _
  | @cons p v ps l hv _ ih =>
    have hrest := ih (acc ++ [v])
    rw [List.append_assoc, List.singleton_append] at hrest
    refine hv.1.bind ?_
    rw [hv.2]
    exact hrest

lemma yields_addEntry {m m' : List (YCPValue × YCPValue)} {key value : YCPValue}
    (h : YCPValue.mapAdd m key value = some m') : Yields (addEntry m key value) m' := by
  intro s
  exact ⟨_, addEntry_of_some h s⟩

lemma yields_yeMapLoop {P : Program} {ev : Evaluator} {ps : List (CodePtr × CodePtr)}
    {m acc : List (YCPValue × YCPValue)} (hkeys : ∀ e ∈ m, e.1.isMapKey = true)
    (hps : List.Forall₂ (fun p e => (Yields (ev true p.1) e.1 ∧ Yields (ev true p.2) e.2) ∧
      e.2.isNull = false) ps m) :
    Yields (yeMapLoop P ev true acc ps)
      (.map (m.foldl (fun m e => YCPValue.mapInsert e.1 e.2 m) acc)) := by
  induction hps generalizing acc with
  | nil => exact yields_pure _
  | @cons p e ps m he _ ih =>
    obtain ⟨⟨hkey, hvalue⟩, hnull⟩ := he
    rw [List.forall_mem_cons] at hkeys
    obtain ⟨hmapKey, hkeys⟩ := hkeys
    have hadd : YCPValue.mapAdd acc e.1 e.2 = some (YCPValue.mapInsert e.1 e.2 acc) := by
      rw [YCPValue.mapAdd, YCPValue.isNull_of_isMapKey hmapKey, if_neg Bool.false_ne_true, if_pos hmapKey]
    have hrest : Yields (yeMapLoop P ev true (YCPValue.mapInsert e.1 e.2 acc) ps) _ := ih hkeys
    refine hkey.bind ?_
    rw [YCPValue.isNull_of_isMapKey hmapKey]
    refine hvalue.bind ?_
    rw [hnull]
    exact (yields_addEntry hadd).bind hrest

/-! ### Code that stands for a value -/

/-- The code at an address evaluates to a value, as a constant and also when the heap grows. -/
def Denotes (heap : Heap) (p : CodePtr) (v : YCPValue) : Prop :=
  p ≤ heap.length ∧ ∀ later fuel, p ≤ fuel → Yields (Interp.evaluate (heap ++ later).program fuel true p) v

lemma Denotes.mono {heap heap' : Heap} {p : CodePtr} {v : YCPValue} (h : Denotes heap p v)
    (hheap : heap <+: heap') : Denotes heap' p v := by
  obtain ⟨more, rfl⟩ := hheap
  refine ⟨?_, fun later fuel hfuel => ?_⟩
  · rw [List.length_append]
    exact Nat.le_add_right_of_le h.1
  · rw [List.append_assoc]
    exact h.2 (more ++ later) fuel hfuel

lemma Denotes.evaluate {heap : Heap} {p : CodePtr} {v : YCPValue} (h : Denotes heap p v) :
    heap.evaluate true p = some v := by
  obtain ⟨s', hs'⟩ := h.2 [] (heap.length + 1) (Nat.le_succ_of_le h.1) State.start
  rw [List.append_nil] at hs'
  rw [Heap.evaluate, hs']

lemma code_alloc (heap : Heap) (node : Node CodePtr) (later : Heap) :
    (heap ++ [node] ++ later).program.code (heap.length + 1) = some node := by
  show (if heap.length + 1 = 0 then none else (heap ++ [node] ++ later)[heap.length + 1 - 1]?) = some node
  rw [if_neg (by omega), Nat.add_sub_cancel, List.append_assoc, List.singleton_append]
  simp

/-- A new node stands for what it evaluates to when its children stand for values. -/
lemma denotes_alloc {heap : Heap} {node : Node CodePtr} {v : YCPValue}
    (h : ∀ later fuel, heap.length ≤ fuel → Yields (evaluateNode (heap ++ later).program fuel
      (Interp.evaluate (heap ++ later).program fuel) true (heap.length + 1) node) v) :
    Denotes (heap ++ [node]) (heap.length + 1) v := by
  refine ⟨?_, fun later fuel hfuel => ?_⟩
  · rw [List.length_append, List.length_singleton]
  · cases fuel with
    | zero => cases hfuel
    | succ fuel =>
    have hnode := h ([node] ++ later) fuel (Nat.le_of_succ_le_succ hfuel)
    rw [← List.append_assoc] at hnode
    rw [Interp.evaluate, code_alloc]
    exact hnode

lemma denotes_constant (heap : Heap) (kind : ConstKind) (v : YCPValue) :
    Denotes (heap ++ [Node.yConst kind v]) (heap.length + 1) v :=
  denotes_alloc fun _ _ _ => yields_pure v

/-- Several codes stand for several values. -/
def DenotesAll (heap : Heap) : List CodePtr → List YCPValue → Prop :=
  List.Forall₂ fun p v => Denotes heap p v ∧ v.isNull = false

lemma DenotesAll.yields {heap : Heap} {ps : List CodePtr} {l : List YCPValue} (h : DenotesAll heap ps l)
    (later : Heap) {fuel : Nat} (hfuel : heap.length ≤ fuel) :
    List.Forall₂ (fun p v => Yields (Interp.evaluate (heap ++ later).program fuel true p) v ∧
      v.isNull = false) ps l :=
  List.Forall₂.imp (fun _ _ hv => ⟨hv.1.2 later fuel (hv.1.1.trans hfuel), hv.2⟩) h

lemma denotes_list {heap : Heap} {ps : List CodePtr} {l : List YCPValue} (h : DenotesAll heap ps l) :
    Denotes (heap ++ [Node.yeList ps]) (heap.length + 1) (.list l) :=
  denotes_alloc fun later _ hfuel => yields_yeListLoop (h.yields later hfuel) []

lemma denotes_term {heap : Heap} (name : CText) {ps : List CodePtr} {l : List YCPValue}
    (h : DenotesAll heap ps l) :
    Denotes (heap ++ [Node.yeTerm name ps]) (heap.length + 1) (.term name.text l) :=
  denotes_alloc fun later _ hfuel => yields_yeTermLoop (h.yields later hfuel) []

def DenotesEntries (heap : Heap) : List (CodePtr × CodePtr) → List (YCPValue × YCPValue) → Prop :=
  List.Forall₂ fun p e => (Denotes heap p.1 e.1 ∧ Denotes heap p.2 e.2) ∧ e.2.isNull = false

lemma denotes_map {heap : Heap} {ps : List (CodePtr × CodePtr)} {m : List (YCPValue × YCPValue)}
    (hkeys : ∀ e ∈ m, e.1.isMapKey = true) (h : DenotesEntries heap ps m) :
    Denotes (heap ++ [.yeMap ps]) (heap.length + 1) (.map (YCPValue.rebuild m)) := by
  refine denotes_alloc fun later fuel hfuel => ?_
  have hps : List.Forall₂ (fun p e =>
      (Yields (Interp.evaluate (heap ++ later).program fuel true p.1) e.1 ∧
        Yields (Interp.evaluate (heap ++ later).program fuel true p.2) e.2) ∧ e.2.isNull = false) ps m :=
    List.Forall₂.imp (fun p e he => ⟨⟨he.1.1.2 later fuel (he.1.1.1.trans hfuel),
      he.1.2.2 later fuel (he.1.2.1.trans hfuel)⟩, he.2⟩) h
  exact yields_yeMapLoop hkeys hps

end YastCore.Transport
