import Mathlib.Algebra.BigOperators.Group.Finset.Piecewise
import Mathlib.Algebra.Order.BigOperators.Group.Finset
import Mathlib.Tactic.Common

/-!
# Reference-counted representations

A heap of representations that hold slots, and the handles of a program beside it. A slot or handle is
null or points to a representation, which counts the pointers to it and is deleted with the last one.
A representation is changed only after `writeCopy`, which copies it unless the handle is its only
owner. What a pointer reads as is the tree of labels below it.
-/

namespace YastCore.RefHeap

abbrev Ptr := Nat

/-- Null or a pointer. -/
abbrev Slot := Option Ptr

structure Rep (L : Type) where
  label : L
  slots : List Slot
  counter : Int

/-- The handles and the live representations; those from `next` on were never made. -/
structure Heap (L : Type) where
  vars : List Slot
  rep : Ptr → Option (Rep L)
  next : Ptr

/-- What a pointer stands for. -/
inductive RepTree (L : Type) where
  | null
  | node (label : L) (children : List (RepTree L))

/-- Induction over the trees inside a tree. -/
@[elab_as_elim]
theorem RepTree.induct {L : Type} {motive : RepTree L → Prop} (null : motive null)
    (node : ∀ label children, (∀ t ∈ children, motive t) → motive (node label children)) (t : RepTree L) :
    motive t := by
  refine @RepTree.rec L motive (fun children => ∀ t ∈ children, motive t) null node ?_ ?_ t
  · intro t ht
    simp at ht
  · intro t children ht hchildren t' ht'
    rcases List.mem_cons.mp ht' with rfl | ht'
    · exact ht
    · exact hchildren t' ht'

/-- Where a handle is kept. -/
inductive Loc where
  | var (i : Nat)
  | slot (p : Ptr) (i : Nat)

namespace Heap

variable {L : Type}

section Operations

variable (H : Heap L)

def setRep (p : Ptr) (r : Option (Rep L)) : Heap L :=
  { H with rep := Function.update H.rep p r }

def slotsOf (p : Ptr) : List Slot := (H.rep p).elim [] Rep.slots

def counterOf (p : Ptr) : Int := (H.rep p).elim 0 Rep.counter

/-- The label and the slots of a representation. -/
def shape (p : Ptr) : Option (L × List Slot) := (H.rep p).map fun r => (r.label, r.slots)

/-- One more pointer. -/
def clone : Slot → Option (Heap L)
  | none => some H
  | some p => (H.rep p).map fun r => H.setRep p (some { r with counter := r.counter + 1 })

/-- The sum of the counters. -/
def references : Nat := ∑ q ∈ Finset.range H.next, (H.counterOf q).toNat

/-- Drop the pointers in turn; a representation that loses its last one drops its slots first. -/
def destroyLoop : Nat → Heap L → List Ptr → Option (Heap L)
  | _, H, [] => some H
  | 0, _, _ :: _ => none
  | fuel + 1, H, p :: pending => do
    let r ← H.rep p
    if r.counter - 1 = 0 then destroyLoop fuel (H.setRep p none) (r.slots.filterMap id ++ pending)
    else destroyLoop fuel (H.setRep p (some { r with counter := r.counter - 1 })) pending

def destroy (s : Slot) : Option (Heap L) := destroyLoop H.references H s.toList

/-- The slots of a new representation, one by one. -/
def cloneAll : Heap L → List Slot → Option (Heap L)
  | H, [] => some H
  | H, s :: slots => do
    let H ← H.clone s
    cloneAll H slots

/-- A new representation that nothing points to yet. -/
def alloc (label : L) (slots : List Slot) : Option (Ptr × Heap L) := do
  let H ← cloneAll H slots
  some (H.next, { H.setRep H.next (some ⟨label, slots, 0⟩) with next := H.next + 1 })

def get : Loc → Option Slot
  | .var i => H.vars[i]?
  | .slot p i => (H.slotsOf p)[i]?

def put (s : Slot) : Loc → Option (Heap L)
  | .var i => if i < H.vars.length then some { H with vars := H.vars.set i s } else none
  | .slot p i => do
    let r ← H.rep p
    if i < r.slots.length then some (H.setRep p (some { r with slots := r.slots.set i s })) else none

/-- Assign to a handle. Its field keeps the old pointer to the end, which nothing reads meanwhile. -/
def assign (loc : Loc) (s : Slot) : Option (Heap L) := do
  let old ← H.get loc
  let H ← H.put none loc
  let H ← H.destroy old
  let H ← H.clone s
  H.put s loc

/-- Make a handle the only owner of what it points to. -/
def writeCopy (loc : Loc) : Option (Ptr × Heap L) := do
  let p ← (← H.get loc)
  let r ← H.rep p
  if r.counter = 1 then some (p, H)
  else
    let (q, H) ← H.alloc r.label r.slots
    let H ← H.clone (some q)
    let H ← H.put (some q) loc
    let H ← H.destroy (some p)
    some (q, H)

end Operations

/-! ### Exact counters -/

/-- The handles and slots that point to `p`. -/
def refs (H : Heap L) (p : Ptr) : Nat :=
  H.vars.count (some p) + ∑ q ∈ Finset.range H.next, (H.slotsOf q).count (some p)

/-- Every counter is the number of handles and slots that point there, and of the pointers that
are `pending`: held by a temporary, or about to be dropped. -/
structure Exact (H : Heap L) (pending : List Ptr) : Prop where
  fresh : ∀ p, H.next ≤ p → H.rep p = none
  counter : ∀ p, H.counterOf p = H.refs p + pending.count p

variable {H H' : Heap L} {pending : List Ptr} {p q : Ptr} {r : Rep L}

lemma Exact.perm (h : Exact H pending) {pending' : List Ptr}
    (hcount : ∀ p, pending'.count p = pending.count p) : Exact H pending' := by
  refine ⟨h.fresh, fun p => ?_⟩
  rw [hcount]
  exact h.counter p

lemma Exact.lt_next (h : Exact H pending) (hr : H.rep p = some r) : p < H.next := by
  by_contra hle
  rw [h.fresh p (Nat.le_of_not_lt hle)] at hr
  cases hr

lemma Exact.slotsOf_eq_nil (h : Exact H pending) (hq : H.next ≤ q) : H.slotsOf q = [] := by
  rw [slotsOf, h.fresh q hq]
  rfl

lemma slotsOf_of_rep (hr : H.rep p = some r) : H.slotsOf p = r.slots := by
  rw [slotsOf, hr]
  rfl

lemma counterOf_of_rep (hr : H.rep p = some r) : H.counterOf p = r.counter := by
  rw [counterOf, hr]
  rfl

@[simp] lemma vars_setRep (r : Option (Rep L)) : (H.setRep p r).vars = H.vars := rfl

@[simp] lemma next_setRep (r : Option (Rep L)) : (H.setRep p r).next = H.next := rfl

lemma rep_setRep (r : Option (Rep L)) (q : Ptr) :
    (H.setRep p r).rep q = if q = p then r else H.rep q := by
  exact Function.update_apply H.rep p r q

lemma rep_setRep_of_ne {r : Option (Rep L)} (h : q ≠ p) : (H.setRep p r).rep q = H.rep q := by
  rw [rep_setRep, if_neg h]

lemma slotsOf_setRep (r : Option (Rep L)) (q : Ptr) :
    (H.setRep p r).slotsOf q = if q = p then r.elim [] Rep.slots else H.slotsOf q := by
  rw [slotsOf, rep_setRep]
  split <;> rfl

lemma counterOf_setRep (r : Option (Rep L)) (q : Ptr) :
    (H.setRep p r).counterOf q = if q = p then r.elim 0 Rep.counter else H.counterOf q := by
  rw [counterOf, rep_setRep]
  split <;> rfl

/-- A sum over the representations after one of them has changed. -/
lemma sum_range_eq {n : Nat} {f g : Nat → Nat} (hp : p < n) (hfg : ∀ q, q ≠ p → g q = f q) :
    ∑ q ∈ Finset.range n, g q + f p = ∑ q ∈ Finset.range n, f q + g p := by
  have hmem : p ∈ Finset.range n := Finset.mem_range.mpr hp
  have hrest : ∑ q ∈ Finset.range n \ {p}, g q = ∑ q ∈ Finset.range n \ {p}, f q := by
    refine Finset.sum_congr rfl fun q hq => hfg q ?_
    simpa using (Finset.mem_sdiff.mp hq).2
  rw [Finset.sum_eq_add_sum_sdiff_singleton_of_mem hmem g,
    Finset.sum_eq_add_sum_sdiff_singleton_of_mem hmem f, hrest, Nat.add_right_comm, Nat.add_comm (g p),
    Nat.add_right_comm]

lemma refs_setRep (hp : p < H.next) (r : Option (Rep L)) (q : Ptr) :
    (H.setRep p r).refs q + (H.slotsOf p).count (some q) =
      H.refs q + (r.elim [] Rep.slots).count (some q) := by
  have hsum := sum_range_eq (f := fun q' => (H.slotsOf q').count (some q))
    (g := fun q' => ((H.setRep p r).slotsOf q').count (some q)) hp (by
      intro q' hq'
      rw [slotsOf_setRep, if_neg hq'])
  simp only [slotsOf_setRep r p, if_true] at hsum
  unfold refs
  rw [vars_setRep, next_setRep]
  omega

lemma references_setRep (hp : p < H.next) (r : Option (Rep L)) :
    (H.setRep p r).references + (H.counterOf p).toNat =
      H.references + (r.elim 0 Rep.counter).toNat := by
  have hsum := sum_range_eq (f := fun q => (H.counterOf q).toNat)
    (g := fun q => ((H.setRep p r).counterOf q).toNat) hp (by
      intro q hq
      rw [counterOf_setRep, if_neg hq])
  simp only [counterOf_setRep r p, if_true] at hsum
  exact hsum

/-- What is pointed to is live. -/
lemma Exact.live (h : Exact H pending) (hpos : 0 < H.refs p + pending.count p) :
    ∃ r, H.rep p = some r := by
  have hcounter := h.counter p
  cases hr : H.rep p with
  | some r => exact ⟨r, rfl⟩
  | none =>
    rw [counterOf, hr] at hcounter
    simp only [Option.elim_none] at hcounter
    omega

lemma refs_pos_of_var (h : some p ∈ H.vars) : 0 < H.refs p := by
  have hcount := List.count_pos_iff.mpr h
  unfold refs
  omega

lemma refs_pos_of_slot (hq : q < H.next) (h : some p ∈ H.slotsOf q) : 0 < H.refs p := by
  have hcount := List.count_pos_iff.mpr h
  have hle : (H.slotsOf q).count (some p) ≤ ∑ q ∈ Finset.range H.next, (H.slotsOf q).count (some p) :=
    Finset.single_le_sum (f := fun q => (H.slotsOf q).count (some p)) (fun q _ => Nat.zero_le _)
      (Finset.mem_range.mpr hq)
  unfold refs
  omega

lemma Exact.live_var (h : Exact H pending) (hp : some p ∈ H.vars) : ∃ r, H.rep p = some r := by
  have hpos := refs_pos_of_var hp
  exact h.live (by omega)

lemma Exact.live_slot (h : Exact H pending) (hp : some p ∈ H.slotsOf q) : ∃ r, H.rep p = some r := by
  have hq : q < H.next := by
    by_contra hle
    rw [slotsOf, h.fresh q (Nat.le_of_not_lt hle)] at hp
    simp at hp
  have hpos := refs_pos_of_slot hq hp
  exact h.live (by omega)

/-! ### The operations keep the counters exact -/

/-- The slots after some of them were replaced, with what became of the pending pointers. -/
lemma Exact.setSlots (h : Exact H pending) (hr : H.rep p = some r) {slots : List Slot}
    {pending' : List Ptr} (hcount : ∀ q, slots.count (some q) + pending'.count q =
      r.slots.count (some q) + pending.count q) :
    Exact (H.setRep p (some { r with slots := slots })) pending' := by
  have hlt := h.lt_next hr
  refine ⟨fun q hq => ?_, fun q => ?_⟩
  · rw [next_setRep] at hq
    rw [rep_setRep, if_neg (Nat.ne_of_gt (Nat.lt_of_lt_of_le hlt hq))]
    exact h.fresh q hq
  · have hrefs := refs_setRep hlt (some { r with slots := slots }) q
    have hcounter := h.counter q
    have hq := hcount q
    rw [slotsOf_of_rep hr] at hrefs
    simp only [Option.elim_some] at hrefs
    rw [counterOf_setRep]
    split
    next heq =>
      subst heq
      rw [counterOf_of_rep hr] at hcounter
      simp only [Option.elim_some]
      omega
    next => omega

lemma Exact.setVars (h : Exact H pending) {vars : List Slot} {pending' : List Ptr}
    (hcount : ∀ q, vars.count (some q) + pending'.count q =
      H.vars.count (some q) + pending.count q) : Exact { H with vars := vars } pending' := by
  refine ⟨h.fresh, fun q => ?_⟩
  have hcounter : H.counterOf q = H.refs q + pending.count q := h.counter q
  have hq := hcount q
  change H.counterOf q = _
  have hrefs : ({ H with vars := vars } : Heap L).refs q + H.vars.count (some q) =
      H.refs q + vars.count (some q) := by
    unfold refs
    change vars.count (some q) + ∑ q' ∈ Finset.range H.next, (H.slotsOf q').count (some q) + _ = _
    omega
  omega

/-- The counter of a live representation set to another number. -/
lemma Exact.setCounter (h : Exact H pending) (hr : H.rep p = some r) {counter : Int}
    {pending' : List Ptr} (hp : counter = H.refs p + pending'.count p)
    (hcount : ∀ q, q ≠ p → pending'.count q = pending.count q) :
    Exact (H.setRep p (some { r with counter := counter })) pending' := by
  have hlt := h.lt_next hr
  refine ⟨fun q hq => ?_, fun q => ?_⟩
  · rw [next_setRep] at hq
    rw [rep_setRep, if_neg (Nat.ne_of_gt (Nat.lt_of_lt_of_le hlt hq))]
    exact h.fresh q hq
  · have hrefs := refs_setRep hlt (some { r with counter := counter }) q
    rw [slotsOf_of_rep hr] at hrefs
    simp only [Option.elim_some] at hrefs
    rw [counterOf_setRep]
    split
    next heq =>
      subst heq
      simp only [Option.elim_some]
      omega
    next hne =>
      have hcounter := h.counter q
      have hq := hcount q hne
      omega

/-- The representations of `H` outside `P` that are still live have kept their shape. -/
structure Kept (P : Ptr → Prop) (H H' : Heap L) : Prop where
  next_le : H.next ≤ H'.next
  shape : ∀ q r', q < H.next → ¬ P q → H'.rep q = some r' → H'.shape q = H.shape q

variable {P : Ptr → Prop}

lemma Kept.refl (P : Ptr → Prop) (H : Heap L) : Kept P H H := ⟨Nat.le_refl _, fun _ _ _ _ _ => rfl⟩

lemma shape_of_rep (hr : H.rep p = some r) : H.shape p = some (r.label, r.slots) := by
  rw [shape, hr]
  rfl

lemma exists_rep_of_shape {label : L} {slots : List Slot} (h : H.shape p = some (label, slots)) :
    ∃ counter, H.rep p = some ⟨label, slots, counter⟩ := by
  rw [shape] at h
  obtain ⟨r, hr, heq⟩ := Option.map_eq_some_iff.mp h
  obtain ⟨rfl, rfl⟩ := Prod.mk.inj heq
  exact ⟨r.counter, hr⟩

lemma Kept.trans {H'' : Heap L} (h : Kept P H H') (h' : Kept P H' H'') : Kept P H H'' := by
  refine ⟨Nat.le_trans h.next_le h'.next_le, fun q r'' hq hP hr'' => ?_⟩
  have hshape := h'.shape q r'' (Nat.lt_of_lt_of_le hq h.next_le) hP hr''
  rw [shape_of_rep hr''] at hshape
  obtain ⟨counter, hr'⟩ := exists_rep_of_shape hshape.symm
  rw [shape_of_rep hr'', hshape]
  exact h.shape q _ hq hP hr'

lemma Kept.mono {P' : Ptr → Prop} (h : Kept P H H') (hP : ∀ q, P q → P' q) : Kept P' H H' :=
  ⟨h.next_le, fun q r' hq hP' => h.shape q r' hq fun hPq => hP' (hP q hPq)⟩

/-- The heap with other counters. -/
structure Same (H H' : Heap L) : Prop where
  vars : H'.vars = H.vars
  next : H'.next = H.next
  shape : ∀ q, H'.shape q = H.shape q

lemma Same.kept (h : Same H H') (P : Ptr → Prop) : Kept P H H' :=
  ⟨h.next.ge, fun q _ _ _ _ => h.shape q⟩

lemma same_setCounter (hr : H.rep p = some r) (counter : Int) :
    Same H (H.setRep p (some { r with counter := counter })) := by
  refine ⟨rfl, rfl, fun q => ?_⟩
  rw [shape, rep_setRep, shape]
  split
  next heq =>
    subst heq
    rw [hr]
    rfl
  next => rfl

theorem Exact.clone (h : Exact H pending) {s : Slot} (hs : ∀ p, s = some p → ∃ r, H.rep p = some r) :
    ∃ H', H.clone s = some H' ∧ Exact H' (s.toList ++ pending) ∧ Same H H' := by
  cases s with
  | none => exact ⟨H, rfl, h, rfl, rfl, fun _ => rfl⟩
  | some p =>
    obtain ⟨r, hr⟩ := hs p rfl
    have hcounter := h.counter p
    rw [counterOf_of_rep hr] at hcounter
    refine ⟨_, by rw [Heap.clone, hr]; rfl, ?_, same_setCounter hr (r.counter + 1)⟩
    refine h.setCounter hr ?_ fun q hq => ?_
    · simp only [Option.toList_some, List.singleton_append, List.count_cons_self]
      omega
    · simp only [Option.toList_some, List.singleton_append]
      exact List.count_cons_of_ne (Ne.symm hq)

lemma count_filterMap_id (slots : List Slot) (q : Ptr) :
    (slots.filterMap id).count q = slots.count (some q) := by
  induction slots with
  | nil => rfl
  | cons s slots ih =>
    cases s with
    | none => simpa using ih
    | some p => simpa [List.count_cons] using ih

/-- A representation without pointers goes, and its slots are pending. -/
lemma Exact.delete (h : Exact H (p :: pending)) (hr : H.rep p = some r) (hcounter : r.counter = 1) :
    Exact (H.setRep p none) (r.slots.filterMap id ++ pending) := by
  have hlt := h.lt_next hr
  have hp := h.counter p
  rw [counterOf_of_rep hr, List.count_cons_self] at hp
  refine ⟨fun q hq => ?_, fun q => ?_⟩
  · rw [next_setRep] at hq
    rw [rep_setRep, if_neg (Nat.ne_of_gt (Nat.lt_of_lt_of_le hlt hq))]
    exact h.fresh q hq
  · have hrefs := refs_setRep hlt none q
    rw [slotsOf_of_rep hr] at hrefs
    simp only [Option.elim_none, List.count_nil] at hrefs
    rw [counterOf_setRep, List.count_append, count_filterMap_id]
    split
    next heq =>
      subst heq
      simp only [Option.elim_none]
      omega
    next hne =>
      have hq := h.counter q
      rw [List.count_cons_of_ne (Ne.symm hne)] at hq
      omega

lemma kept_delete (P : Ptr → Prop) (H : Heap L) (p : Ptr) : Kept P H (H.setRep p none) := by
  refine ⟨Nat.le_refl _, fun q r' _ _ hr' => ?_⟩
  rw [rep_setRep] at hr'
  split at hr'
  next => cases hr'
  next hne => rw [shape, rep_setRep, if_neg hne, shape]

theorem Exact.destroyLoop {fuel : Nat} {dropped : List Ptr} (h : Exact H (dropped ++ pending))
    (hfuel : H.references ≤ fuel) :
    ∃ H', destroyLoop fuel H dropped = some H' ∧ Exact H' pending ∧ Kept P H H' ∧ H'.vars = H.vars ∧
      H'.next = H.next := by
  induction fuel generalizing H dropped with
  | zero =>
    cases dropped with
    | nil => exact ⟨H, rfl, h, Kept.refl P H, rfl, rfl⟩
    | cons p dropped =>
      obtain ⟨r, hr⟩ := h.live (p := p) (by
        rw [List.cons_append, List.count_cons_self]
        omega)
      have hreferences := references_setRep (h.lt_next hr) none
      have hcounter := h.counter p
      rw [List.cons_append, List.count_cons_self] at hcounter
      simp only [Option.elim_none, Int.toNat_zero] at hreferences
      omega
  | succ fuel ih =>
    cases dropped with
    | nil => exact ⟨H, rfl, h, Kept.refl P H, rfl, rfl⟩
    | cons p dropped =>
      obtain ⟨r, hr⟩ := h.live (p := p) (by
        rw [List.cons_append, List.count_cons_self]
        omega)
      have hcounter := h.counter p
      rw [List.cons_append, List.count_cons_self, counterOf_of_rep hr] at hcounter
      by_cases hlast : r.counter - 1 = 0
      · have hreferences := references_setRep (h.lt_next hr) none
        rw [counterOf_of_rep hr] at hreferences
        simp only [Option.elim_none, Int.toNat_zero] at hreferences
        rw [List.cons_append] at h
        have hexact := h.delete hr (by omega)
        rw [← List.append_assoc] at hexact
        obtain ⟨H', hloop, hexact', hkept, hvars, hnext⟩ := ih hexact (by omega)
        refine ⟨H', ?_, hexact', (kept_delete P H p).trans hkept, hvars, hnext⟩
        rw [Heap.destroyLoop, hr]
        simp only [Option.bind_eq_bind, Option.bind_some, hlast, if_true]
        exact hloop
      · have hreferences := references_setRep (h.lt_next hr) (some { r with counter := r.counter - 1 })
        rw [counterOf_of_rep hr] at hreferences
        simp only [Option.elim_some] at hreferences
        have hexact : Exact (H.setRep p (some { r with counter := r.counter - 1 }))
            (dropped ++ pending) := by
          refine h.setCounter hr (by omega) fun q hq => ?_
          rw [List.cons_append, List.count_cons_of_ne (Ne.symm hq)]
        obtain ⟨H', hloop, hexact', hkept, hvars, hnext⟩ := ih hexact (by omega)
        refine ⟨H', ?_, hexact', ((same_setCounter hr _).kept P).trans hkept, hvars, hnext⟩
        rw [Heap.destroyLoop, hr]
        simp only [Option.bind_eq_bind, Option.bind_some, hlast, if_false]
        exact hloop

theorem Exact.destroy {s : Slot} (h : Exact H (s.toList ++ pending)) (P : Ptr → Prop) :
    ∃ H', H.destroy s = some H' ∧ Exact H' pending ∧ Kept P H H' ∧ H'.vars = H.vars ∧
      H'.next = H.next :=
  h.destroyLoop (Nat.le_refl _)

/-! ### Reading -/

mutual

def ReadsAs (H : Heap L) : RepTree L → Slot → Prop
  | .null, s => s = none
  | .node label children, s =>
    ∃ p slots, s = some p ∧ H.shape p = some (label, slots) ∧ ReadAll H children slots

def ReadAll (H : Heap L) : List (RepTree L) → List Slot → Prop
  | [], slots => slots = []
  | t :: children, slots => ∃ s rest, slots = s :: rest ∧ ReadsAs H t s ∧ ReadAll H children rest

end

lemma readAll_iff {ts : List (RepTree L)} {slots : List Slot} :
    ReadAll H ts slots ↔ List.Forall₂ (ReadsAs H) ts slots := by
  induction ts generalizing slots with
  | nil => rw [ReadAll, List.forall₂_nil_left_iff]
  | cons t ts ih =>
    rw [ReadAll, List.forall₂_cons_left_iff]
    constructor
    · rintro ⟨s, rest, rfl, hs, hrest⟩
      exact ⟨s, rest, hs, ih.mp hrest, rfl⟩
    · rintro ⟨s, rest, hs, hrest, rfl⟩
      exact ⟨s, rest, rfl, hs, ih.mpr hrest⟩

lemma readsAs_null {s : Slot} : ReadsAs H .null s ↔ s = none := by
  rw [ReadsAs]

lemma readsAs_node {label : L} {children : List (RepTree L)} {s : Slot} :
    ReadsAs H (.node label children) s ↔
      ∃ p slots, s = some p ∧ H.shape p = some (label, slots) ∧
        List.Forall₂ (ReadsAs H) children slots := by
  rw [ReadsAs]
  simp only [readAll_iff]

/-- Reading stays the same below a set of representations that keep their shape. -/
theorem ReadsAs.transfer {W : Ptr → Prop}
    (hW : ∀ q label slots, W q → H.shape q = some (label, slots) →
      H'.shape q = some (label, slots) ∧ ∀ q', some q' ∈ slots → W q')
    {t : RepTree L} {s : Slot} (hs : ∀ q, s = some q → W q) (h : ReadsAs H t s) : ReadsAs H' t s := by
  induction t using RepTree.induct generalizing s with
  | null => exact readsAs_null.mpr (readsAs_null.mp h)
  | node label children ih =>
    obtain ⟨p, slots, rfl, hshape, hslots⟩ := readsAs_node.mp h
    obtain ⟨hshape', hclosed⟩ := hW p label slots (hs p rfl) hshape
    refine readsAs_node.mpr ⟨p, slots, rfl, hshape', ?_⟩
    rw [List.forall₂_iff_get] at hslots ⊢
    refine ⟨hslots.1, fun i h₁ h₂ => ?_⟩
    refine ih _ (List.get_mem _ _) (fun q hq => hclosed q ?_) (hslots.2 i h₁ h₂)
    rw [← hq]
    exact List.get_mem _ _

/-- A slot reads as one tree only. -/
theorem ReadsAs.unique {t t' : RepTree L} {s : Slot} (h : ReadsAs H t s) (h' : ReadsAs H t' s) : t = t' := by
  induction t using RepTree.induct generalizing t' s with
  | null =>
    rw [readsAs_null.mp h] at h'
    cases t' with
    | null => rfl
    | node label children =>
      obtain ⟨p, slots, hp, -⟩ := readsAs_node.mp h'
      cases hp
  | node label children ih =>
    obtain ⟨p, slots, rfl, hshape, hslots⟩ := readsAs_node.mp h
    cases t' with
    | null => cases readsAs_null.mp h'
    | node label' children' =>
      obtain ⟨p', slots', hp, hshape', hslots'⟩ := readsAs_node.mp h'
      cases hp
      rw [hshape, Option.some.injEq, Prod.mk.injEq] at hshape'
      obtain ⟨rfl, rfl⟩ := hshape'
      rw [List.forall₂_iff_get] at hslots hslots'
      have hchildren : children = children' := by
        refine List.ext_get (hslots.1.trans hslots'.1.symm) fun i h₁ h₂ => ?_
        have hi : i < slots.length := hslots.1 ▸ h₁
        exact ih _ (List.get_mem _ _) (hslots.2 i h₁ hi) (hslots'.2 i h₂ hi)
      rw [hchildren]

/-- A null slot, or one that points to a live representation. -/
def Live (H : Heap L) (s : Slot) : Prop := ∀ p, s = some p → ∃ r, H.rep p = some r

lemma ReadsAs.live {t : RepTree L} {s : Slot} (h : ReadsAs H t s) : Live H s := by
  intro p hp
  cases t with
  | null =>
    rw [readsAs_null.mp h] at hp
    cases hp
  | node label children =>
    obtain ⟨q, slots, rfl, hshape, -⟩ := readsAs_node.mp h
    obtain ⟨counter, hr⟩ := exists_rep_of_shape hshape
    cases hp
    exact ⟨_, hr⟩

lemma forall₂_imp_mem {α β : Type} {R S : α → β → Prop} {l : List α} {l' : List β}
    (h : List.Forall₂ R l l') (himp : ∀ a, ∀ b ∈ l', R a b → S a b) : List.Forall₂ S l l' := by
  induction h with
  | nil => exact .nil
  | cons hab _ ih =>
    refine .cons (himp _ _ List.mem_cons_self hab) (ih fun a b hb => himp a b (List.mem_cons_of_mem _ hb))

lemma live_of_forall₂ {ts : List (RepTree L)} {slots : List Slot} (h : List.Forall₂ (ReadsAs H) ts slots) :
    ∀ s ∈ slots, Live H s := by
  induction h with
  | nil => simp
  | cons hts _ ih => exact List.forall_mem_cons.mpr ⟨hts.live, ih⟩

/-- No representation outside `P` points into it. -/
def Sealed (P : Ptr → Prop) (H : Heap L) : Prop :=
  ∀ q q', ¬ P q → some q' ∈ H.slotsOf q → ¬ P q'

/-- What is outside `P` and still live reads as before. -/
theorem Kept.reads (hkept : Kept P H H') {pending' : List Ptr} (hexact : Exact H pending)
    (hexact' : Exact H' pending') (hsealed : Sealed P H) {t : RepTree L} {s : Slot} (hlive : Live H' s)
    (hs : ∀ q, s = some q → ¬ P q) (h : ReadsAs H t s) : ReadsAs H' t s := by
  have hold := h.live
  refine h.transfer (W := fun q => ¬ P q ∧ q < H.next ∧ ∃ r, H'.rep q = some r) ?_ ?_
  · rintro q label slots ⟨hP, hlt, r', hr'⟩ hshape
    have hshape' := hkept.shape q r' hlt hP hr'
    rw [hshape] at hshape'
    refine ⟨hshape', fun q' hq' => ?_⟩
    obtain ⟨counter, hr⟩ := exists_rep_of_shape hshape
    obtain ⟨counter', hr''⟩ := exists_rep_of_shape hshape'
    have hmem : some q' ∈ H.slotsOf q := by
      rw [slotsOf_of_rep hr]
      exact hq'
    have hmem' : some q' ∈ H'.slotsOf q := by
      rw [slotsOf_of_rep hr'']
      exact hq'
    obtain ⟨r₁, hr₁⟩ := hexact.live_slot hmem
    exact ⟨hsealed q q' hP hmem, hexact.lt_next hr₁, hexact'.live_slot hmem'⟩
  · intro q hq
    obtain ⟨r, hr⟩ := hold q hq
    exact ⟨hs q hq, hexact.lt_next hr, hlive q hq⟩

/-- Nothing is excepted. -/
def nowhere : Ptr → Prop := fun _ => False

lemma sealed_nowhere (H : Heap L) : Sealed nowhere H := fun _ _ _ _ h => h

/-! ### Copies and assignments -/

lemma Same.live (h : Same H H') {s : Slot} (hs : Live H s) : Live H' s := by
  intro p hp
  obtain ⟨r, hr⟩ := hs p hp
  have hshape := h.shape p
  rw [shape_of_rep hr] at hshape
  obtain ⟨counter, hr'⟩ := exists_rep_of_shape hshape
  exact ⟨_, hr'⟩

lemma Same.trans {H'' : Heap L} (h : Same H H') (h' : Same H' H'') : Same H H'' :=
  ⟨h'.vars.trans h.vars, h'.next.trans h.next, fun q => (h'.shape q).trans (h.shape q)⟩

lemma Exact.cloneAll (h : Exact H pending) {slots : List Slot} (hs : ∀ s ∈ slots, Live H s) :
    ∃ H', cloneAll H slots = some H' ∧ Exact H' (slots.filterMap id ++ pending) ∧ Same H H' := by
  induction slots generalizing H pending with
  | nil => exact ⟨H, rfl, h, rfl, rfl, fun _ => rfl⟩
  | cons s slots ih =>
    obtain ⟨H₁, hclone, hexact₁, hsame₁⟩ := h.clone (hs s List.mem_cons_self)
    obtain ⟨H₂, hall, hexact₂, hsame₂⟩ :=
      ih hexact₁ fun s' hs' => hsame₁.live (hs s' (List.mem_cons_of_mem s hs'))
    refine ⟨H₂, ?_, hexact₂.perm fun q => ?_, hsame₁.trans hsame₂⟩
    · rw [Heap.cloneAll, hclone]
      exact hall
    · cases s with
      | none => simp
      | some p =>
        simp only [List.filterMap_cons, id_eq, Option.toList_some, List.count_append, List.count_cons]
        simp only [List.count_nil]
        omega

/-- A new representation, without pointers to it. -/
theorem Exact.alloc (h : Exact H pending) (label : L) {slots : List Slot} (hs : ∀ s ∈ slots, Live H s) :
    ∃ H', H.alloc label slots = some (H.next, H') ∧ Exact H' pending ∧ H'.vars = H.vars ∧
      H'.next = H.next + 1 ∧ H'.rep H.next = some ⟨label, slots, 0⟩ ∧
      ∀ q, q ≠ H.next → H'.shape q = H.shape q := by
  obtain ⟨H₁, hall, hexact₁, hsame⟩ := h.cloneAll hs
  refine ⟨{ H₁.setRep H₁.next (some ⟨label, slots, 0⟩) with next := H₁.next + 1 }, ?_, ⟨?_, ?_⟩,
    hsame.vars, ?_, ?_, ?_⟩
  · rw [Heap.alloc, hall, ← hsame.next]
    rfl
  · intro q hq
    have hne : q ≠ H₁.next := Nat.ne_of_gt hq
    change (H₁.setRep H₁.next (some ⟨label, slots, 0⟩)).rep q = none
    rw [rep_setRep, if_neg hne]
    exact hexact₁.fresh q (Nat.le_of_lt hq)
  · intro q
    have hrefs : ({ H₁.setRep H₁.next (some ⟨label, slots, 0⟩) with next := H₁.next + 1 } : Heap L).refs q =
        H₁.refs q + slots.count (some q) := by
      unfold refs
      change H₁.vars.count (some q) + ∑ q' ∈ Finset.range (H₁.next + 1),
        ((H₁.setRep H₁.next (some ⟨label, slots, 0⟩)).slotsOf q').count (some q) = _
      rw [Finset.sum_range_succ, slotsOf_setRep, if_pos rfl]
      have hsum : ∑ q' ∈ Finset.range H₁.next,
          ((H₁.setRep H₁.next (some ⟨label, slots, 0⟩)).slotsOf q').count (some q) =
          ∑ q' ∈ Finset.range H₁.next, (H₁.slotsOf q').count (some q) := by
        refine Finset.sum_congr rfl fun q' hq' => ?_
        rw [slotsOf_setRep, if_neg (Nat.ne_of_lt (Finset.mem_range.mp hq'))]
      rw [hsum]
      simp only [Option.elim_some]
      omega
    have hcounter := hexact₁.counter q
    rw [List.count_append, count_filterMap_id] at hcounter
    change (H₁.setRep H₁.next (some ⟨label, slots, 0⟩)).counterOf q = _
    rw [hrefs, counterOf_setRep]
    split
    next heq =>
      subst heq
      rw [counterOf, hexact₁.fresh _ (Nat.le_refl _)] at hcounter
      simp only [Option.elim_none] at hcounter
      simp only [Option.elim_some]
      omega
    next => omega
  · exact congrArg (· + 1) hsame.next
  · change (H₁.setRep H₁.next (some ⟨label, slots, 0⟩)).rep H.next = _
    rw [rep_setRep, if_pos hsame.next.symm]
  · intro q hq
    change (H₁.setRep H₁.next (some ⟨label, slots, 0⟩)).shape q = _
    rw [shape, rep_setRep, if_neg (by rw [hsame.next]; exact hq)]
    exact hsame.shape q

lemma count_set_add {slots : List Slot} {i : Nat} {old : Slot} (h : slots[i]? = some old) (s : Slot)
    (q : Ptr) : (slots.set i s).count (some q) + old.toList.count q =
      slots.count (some q) + s.toList.count q := by
  induction slots generalizing i with
  | nil => simp at h
  | cons s' slots ih =>
    cases i with
    | zero =>
      rw [List.getElem?_cons_zero, Option.some.injEq] at h
      subst h
      rw [List.set_cons_zero, List.count_cons, List.count_cons]
      cases s <;> cases s' <;> simp [List.count_cons]; omega
    | succ i =>
      rw [List.getElem?_cons_succ] at h
      have hrest := ih h
      rw [List.set_cons_succ, List.count_cons, List.count_cons]
      omega

/-- Store a pending pointer in a handle; what was there is pending. -/
lemma Exact.putVar {s old : Slot} {i : Nat} (h : Exact H (s.toList ++ pending))
    (hold : H.vars[i]? = some old) :
    H.put s (.var i) = some { H with vars := H.vars.set i s } ∧
      Exact { H with vars := H.vars.set i s } (old.toList ++ pending) := by
  have hlt : i < H.vars.length := (List.getElem?_eq_some_iff.mp hold).1
  refine ⟨if_pos hlt, h.setVars fun q => ?_⟩
  have hcount := count_set_add hold s q
  rw [List.count_append, List.count_append]
  omega

lemma Exact.putSlot {s old : Slot} {i : Nat} (h : Exact H (s.toList ++ pending)) (hr : H.rep p = some r)
    (hold : r.slots[i]? = some old) :
    H.put s (.slot p i) = some (H.setRep p (some { r with slots := r.slots.set i s })) ∧
      Exact (H.setRep p (some { r with slots := r.slots.set i s })) (old.toList ++ pending) := by
  have hlt : i < r.slots.length := (List.getElem?_eq_some_iff.mp hold).1
  refine ⟨?_, h.setSlots hr fun q => ?_⟩
  · rw [put, hr]
    exact if_pos hlt
  · have hcount := count_set_add hold s q
    rw [List.count_append, List.count_append]
    omega

lemma shape_setSlots (slots : List Slot) (q : Ptr) :
    (H.setRep p (some { r with slots := slots })).shape q =
      if q = p then some (r.label, slots) else H.shape q := by
  rw [shape, rep_setRep]
  split <;> rfl

/-- Reached from the handles. -/
inductive Anchored (H : Heap L) : Ptr → Prop
  | var {p : Ptr} (h : some p ∈ H.vars) : Anchored H p
  | slot {q p : Ptr} (hq : Anchored H q) (h : some p ∈ H.slotsOf q) : Anchored H p

lemma Anchored.live (ha : Anchored H p) (h : Exact H pending) : ∃ r, H.rep p = some r := by
  cases ha with
  | var hp => exact h.live_var hp
  | slot _ hp => exact h.live_slot hp

/-- What is reached from the handles is not dropped. -/
lemma Anchored.kept {pending' : List Ptr} (ha : Anchored H p) (hexact : Exact H pending)
    (hexact' : Exact H' pending') (hkept : Kept nowhere H H') (hvars : H'.vars = H.vars) :
    Anchored H' p := by
  induction ha with
  | var hp => exact .var (by rw [hvars]; exact hp)
  | slot hq hp ih =>
    obtain ⟨r, hr⟩ := hq.live hexact
    obtain ⟨r', hr'⟩ := ih.live hexact'
    have hshape := hkept.shape _ r' (hexact.lt_next hr) (fun hn => hn) hr'
    rw [shape_of_rep hr, shape_of_rep hr'] at hshape
    refine .slot ih ?_
    rw [slotsOf_of_rep hr'] at *
    rw [slotsOf_of_rep hr] at hp
    rw [(Prod.mk.inj (Option.some.inj hshape)).2]
    exact hp

/-- Assignment to a handle of the program, of a pointer that something else holds. -/
theorem Exact.assignVar {s : Slot} {i : Nat} (h : Exact H pending) (hi : i < H.vars.length)
    (hs : ∀ p, s = some p → some p ∈ H.vars.set i none ∨ p ∈ pending) :
    ∃ H', H.assign (.var i) s = some H' ∧ Exact H' pending ∧ Kept nowhere H H' ∧
      H'.vars = H.vars.set i s := by
  obtain ⟨old, hold⟩ : ∃ old, H.vars[i]? = some old := ⟨_, List.getElem?_eq_getElem hi⟩
  have hnone : Exact H ((none : Slot).toList ++ pending) := h
  have hput := hnone.putVar hold
  obtain ⟨H₂, hdestroy, hexact₂, hkept₂, hvars₂, hnext₂⟩ := hput.2.destroy nowhere
  have hlive : ∀ p, s = some p → ∃ r, H₂.rep p = some r := by
    intro p hp
    rcases hs p hp with hmem | hmem
    · exact hexact₂.live_var (by rw [hvars₂]; exact hmem)
    · have hcount := List.count_pos_iff.mpr hmem
      exact hexact₂.live (by omega)
  obtain ⟨H₃, hclone, hexact₃, hsame₃⟩ := hexact₂.clone hlive
  have hnull : H₃.vars[i]? = some none := by
    rw [hsame₃.vars, hvars₂, List.getElem?_set_self hi]
  have hput' := hexact₃.putVar hnull
  refine ⟨_, ?_, hput'.2, ?_, ?_⟩
  · rw [assign, get, hold]
    simp only [Option.bind_eq_bind, Option.bind_some, hput.1, hdestroy, hclone, hput'.1]
  · have hkept₁ : Kept nowhere H { H with vars := H.vars.set i none } :=
      ⟨Nat.le_refl _, fun _ _ _ _ _ => rfl⟩
    have hkept₄ : Kept nowhere H₃ { H₃ with vars := H₃.vars.set i s } :=
      ⟨Nat.le_refl _, fun _ _ _ _ _ => rfl⟩
    exact ((hkept₁.trans hkept₂).trans (hsame₃.kept nowhere)).trans hkept₄
  · change H₃.vars.set i s = _
    rw [hsame₃.vars, hvars₂, List.set_set]

theorem Exact.assignSlot {s : Slot} {i : Nat} (h : Exact H pending) (hr : H.rep p = some r)
    (hi : i < r.slots.length)
    (hp : Anchored (H.setRep p (some { r with slots := r.slots.set i none })) p)
    (hs : ∀ p', s = some p' → some p' ∈ H.vars ∨ p' ∈ pending) :
    ∃ H', H.assign (.slot p i) s = some H' ∧ Exact H' pending ∧ Kept (· = p) H H' ∧
      H'.vars = H.vars ∧ H'.next = H.next ∧ H'.shape p = some (r.label, r.slots.set i s) := by
  obtain ⟨old, hold⟩ : ∃ old, r.slots[i]? = some old := ⟨_, List.getElem?_eq_getElem hi⟩
  have hnone : Exact H ((none : Slot).toList ++ pending) := h
  have hput := hnone.putSlot hr hold
  obtain ⟨H₂, hdestroy, hexact₂, hkept₂, hvars₂, hnext₂⟩ := hput.2.destroy nowhere
  obtain ⟨r₂, hr₂⟩ := (hp.kept hput.2 hexact₂ hkept₂ hvars₂).live hexact₂
  have hshape₂ := hkept₂.shape p r₂ (h.lt_next hr) (fun hn => hn) hr₂
  rw [shape_setSlots, if_pos rfl] at hshape₂
  have hlive : ∀ p', s = some p' → ∃ r, H₂.rep p' = some r := by
    intro p' hp'
    rcases hs p' hp' with hmem | hmem
    · exact hexact₂.live_var (by rw [hvars₂]; exact hmem)
    · have hcount := List.count_pos_iff.mpr hmem
      exact hexact₂.live (by omega)
  obtain ⟨H₃, hclone, hexact₃, hsame₃⟩ := hexact₂.clone hlive
  have hshape₃ := (hsame₃.shape p).trans hshape₂
  obtain ⟨counter, hr₃⟩ := exists_rep_of_shape hshape₃
  have hput' := hexact₃.putSlot hr₃ (List.getElem?_set_self hi)
  refine ⟨_, ?_, hput'.2, ⟨?_, ?_⟩, ?_, ?_, ?_⟩
  · rw [assign, get, slotsOf_of_rep hr, hold]
    simp only [Option.bind_eq_bind, Option.bind_some, hput.1, hdestroy, hclone, hput'.1]
  · exact hkept₂.next_le.trans hsame₃.next.ge
  · intro q r' hq hne hr'
    rw [shape_setSlots, if_neg hne, hsame₃.shape]
    rw [rep_setRep, if_neg hne] at hr'
    have hshape := hsame₃.shape q
    rw [shape_of_rep hr'] at hshape
    obtain ⟨c, hr₂'⟩ := exists_rep_of_shape hshape.symm
    rw [hkept₂.shape q _ hq (fun hn => hn) hr₂', shape_setSlots, if_neg hne]
  · exact hsame₃.vars.trans hvars₂
  · exact hsame₃.next.trans hnext₂
  · rw [shape_setSlots, if_pos rfl, List.set_set]

/-- Drop a pointer that is not the last one. -/
lemma Exact.destroy_shared (h : Exact H (p :: pending)) (hr : H.rep p = some r) (hc : r.counter ≠ 1) :
    H.destroy (some p) = some (H.setRep p (some { r with counter := r.counter - 1 })) ∧
      Exact (H.setRep p (some { r with counter := r.counter - 1 })) pending := by
  have hcounter := h.counter p
  rw [counterOf_of_rep hr, List.count_cons_self] at hcounter
  have hreferences := references_setRep (h.lt_next hr) none
  rw [counterOf_of_rep hr] at hreferences
  simp only [Option.elim_none, Int.toNat_zero] at hreferences
  obtain ⟨n, hn⟩ : ∃ n, H.references = n + 1 := Nat.exists_eq_succ_of_ne_zero (by omega)
  refine ⟨?_, h.setCounter hr (by omega) fun q hq => ?_⟩
  · have hne : ¬ r.counter - 1 = 0 := by omega
    rw [Heap.destroy, hn, Option.toList_some, Heap.destroyLoop, hr]
    simp only [Option.bind_eq_bind, Option.bind_some, hne, if_false, Heap.destroyLoop]
  · rw [List.count_cons_of_ne (Ne.symm hq)]

/-- The copy that `writeCopy` makes of a shared representation, before it is stored. -/
lemma Exact.copy (h : Exact H pending) (hr : H.rep p = some r) :
    ∃ H₁ H₂, H.alloc r.label r.slots = some (H.next, H₁) ∧ H₁.clone (some H.next) = some H₂ ∧
      Exact H₂ (H.next :: pending) ∧ H₂.vars = H.vars ∧ H₂.next = H.next + 1 ∧
      H₂.rep H.next = some ⟨r.label, r.slots, 1⟩ ∧ ∀ q, q ≠ H.next → H₂.shape q = H.shape q := by
  have hlive : ∀ s ∈ r.slots, Live H s := by
    rintro s hs q rfl
    exact h.live_slot (q := p) (by rw [slotsOf_of_rep hr]; exact hs)
  obtain ⟨H₁, halloc, hexact₁, hvars₁, hnext₁, hrep₁, hshape₁⟩ := h.alloc r.label hlive
  obtain ⟨H₂, hclone, hexact₂, hsame⟩ := hexact₁.clone (s := some H.next) (by
    rintro q hq
    cases hq
    exact ⟨_, hrep₁⟩)
  refine ⟨H₁, H₂, halloc, hclone, hexact₂, hsame.vars.trans hvars₁, hsame.next.trans hnext₁, ?_,
    fun q hq => (hsame.shape q).trans (hshape₁ q hq)⟩
  rw [Heap.clone, hrep₁] at hclone
  rw [← Option.some.inj hclone, rep_setRep, if_pos rfl]
  rfl

lemma slotsOf_eq_of_shape (h : H'.shape q = H.shape q) : H'.slotsOf q = H.slotsOf q := by
  have hslots : ∀ H : Heap L, H.slotsOf q = (H.shape q).elim [] Prod.snd := by
    intro H
    rw [slotsOf, shape]
    cases H.rep q <;> rfl
  rw [hslots, hslots, h]

lemma refs_le_of_shape (hvars : H'.vars = H.vars) (hnext : H.next ≤ H'.next)
    (hshape : ∀ q, q < H.next → H'.shape q = H.shape q) : H.refs p ≤ H'.refs p := by
  have hsum : ∑ q ∈ Finset.range H.next, (H.slotsOf q).count (some p) ≤
      ∑ q ∈ Finset.range H'.next, (H'.slotsOf q).count (some p) := by
    calc ∑ q ∈ Finset.range H.next, (H.slotsOf q).count (some p)
      _ = ∑ q ∈ Finset.range H.next, (H'.slotsOf q).count (some p) := by
        refine Finset.sum_congr rfl fun q hq => ?_
        rw [slotsOf_eq_of_shape (hshape q (Finset.mem_range.mp hq))]
      _ ≤ ∑ q ∈ Finset.range H'.next, (H'.slotsOf q).count (some p) :=
        Finset.sum_le_sum_of_subset (Finset.range_mono hnext)
  unfold refs
  rw [hvars]
  omega

/-- The old representation after the copy is still shared. -/
lemma Exact.copy_shared {H₂ : Heap L} (h : Exact H pending) (hr : H.rep p = some r)
    (hpos : 0 < H.refs p) (hc : r.counter ≠ 1) (hexact₂ : Exact H₂ (H.next :: pending))
    (hvars₂ : H₂.vars = H.vars) (hnext₂ : H₂.next = H.next + 1)
    (hshape₂ : ∀ q, q ≠ H.next → H₂.shape q = H.shape q) :
    ∃ counter, H₂.rep p = some ⟨r.label, r.slots, counter⟩ ∧ counter ≠ 1 := by
  have hne : p ≠ H.next := Nat.ne_of_lt (h.lt_next hr)
  obtain ⟨counter, hr₂⟩ := exists_rep_of_shape ((hshape₂ p hne).trans (shape_of_rep hr))
  refine ⟨counter, hr₂, ?_⟩
  have hle : H.refs p ≤ H₂.refs p :=
    refs_le_of_shape hvars₂ (hnext₂ ▸ Nat.le_succ _) fun q hq => hshape₂ q (Nat.ne_of_lt hq)
  have hcounter := h.counter p
  have hcounter₂ := hexact₂.counter p
  rw [counterOf_of_rep hr] at hcounter
  rw [counterOf_of_rep hr₂, List.count_cons_of_ne (Ne.symm hne)] at hcounter₂
  simp only at hcounter₂
  omega

/-- After `writeCopy` the handle is the only owner of a representation that reads as the old one. -/
theorem Exact.writeCopyVar {i : Nat} (h : Exact H pending) (hi : H.vars[i]? = some (some p))
    (hr : H.rep p = some r) :
    ∃ q H', H.writeCopy (.var i) = some (q, H') ∧ Exact H' pending ∧ Kept nowhere H H' ∧
      H'.vars = H.vars.set i (some q) ∧ H'.rep q = some ⟨r.label, r.slots, 1⟩ := by
  obtain ⟨hlt, hget⟩ := List.getElem?_eq_some_iff.mp hi
  by_cases hc : r.counter = 1
  · refine ⟨p, H, ?_, h, Kept.refl _ H, ?_, ?_⟩
    · rw [writeCopy, get, hi]
      simp only [Option.bind_eq_bind, Option.bind_some, hr, hc, if_true]
    · rw [← hget, List.set_getElem_self]
    · rw [hr, ← hc]
  · obtain ⟨H₁, H₂, halloc, hclone, hexact₂, hvars₂, hnext₂, hrep₂, hshape₂⟩ := h.copy hr
    have hne : p ≠ H.next := Nat.ne_of_lt (h.lt_next hr)
    have hpos : 0 < H.refs p := refs_pos_of_var (hget ▸ List.getElem_mem hlt)
    obtain ⟨counter, hr₂, hc₂⟩ := h.copy_shared hr hpos hc hexact₂ hvars₂ hnext₂ hshape₂
    have hi₂ : H₂.vars[i]? = some (some p) := by rw [hvars₂, hi]
    obtain ⟨hput, hexact₃⟩ := Exact.putVar (s := some H.next) hexact₂ hi₂
    obtain ⟨hdestroy, hexact₄⟩ := hexact₃.destroy_shared hr₂ hc₂
    refine ⟨H.next, _, ?_, hexact₄, ⟨?_, fun q r' hq _ _ => ?_⟩, ?_, ?_⟩
    · rw [writeCopy, get, hi]
      simp only [Option.bind_eq_bind, Option.bind_some, hr, hc, if_false, halloc, hclone, hput, hdestroy]
    · exact hnext₂ ▸ Nat.le_succ _
    · exact ((same_setCounter hr₂ (counter - 1)).shape q).trans (hshape₂ q (Nat.ne_of_lt hq))
    · change H₂.vars.set i _ = _
      rw [hvars₂]
    · rw [rep_setRep, if_neg (Ne.symm hne)]
      exact hrep₂

/-- The same for a handle in a slot of another representation. -/
theorem Exact.writeCopySlot {o : Ptr} {ro : Rep L} {i : Nat} (h : Exact H pending)
    (ho : H.rep o = some ro) (hi : ro.slots[i]? = some (some p)) (hr : H.rep p = some r) (hop : o ≠ p) :
    ∃ q H', H.writeCopy (.slot o i) = some (q, H') ∧ Exact H' pending ∧ Kept (· = o) H H' ∧
      H'.vars = H.vars ∧ H'.shape o = some (ro.label, ro.slots.set i (some q)) ∧
      H'.rep q = some ⟨r.label, r.slots, 1⟩ ∧ q ≠ o ∧ ∀ q', H.next ≤ q' → q' ≠ q → H'.slotsOf q' = [] := by
  obtain ⟨hlt, hget⟩ := List.getElem?_eq_some_iff.mp hi
  by_cases hc : r.counter = 1
  · refine ⟨p, H, ?_, h, Kept.refl _ H, rfl, ?_, ?_, Ne.symm hop, fun q' hq' _ => h.slotsOf_eq_nil hq'⟩
    · rw [writeCopy, get, slotsOf_of_rep ho, hi]
      simp only [Option.bind_eq_bind, Option.bind_some, hr, hc, if_true]
    · rw [shape_of_rep ho, ← hget, List.set_getElem_self]
    · rw [hr, ← hc]
  · obtain ⟨H₁, H₂, halloc, hclone, hexact₂, hvars₂, hnext₂, hrep₂, hshape₂⟩ := h.copy hr
    have hne : p ≠ H.next := Nat.ne_of_lt (h.lt_next hr)
    have hone : o ≠ H.next := Nat.ne_of_lt (h.lt_next ho)
    have hpos : 0 < H.refs p := refs_pos_of_slot (h.lt_next ho) (by
      rw [slotsOf_of_rep ho, ← hget]
      exact List.getElem_mem hlt)
    obtain ⟨counter, hr₂, hc₂⟩ := h.copy_shared hr hpos hc hexact₂ hvars₂ hnext₂ hshape₂
    obtain ⟨counter', ho₂⟩ := exists_rep_of_shape ((hshape₂ o hone).trans (shape_of_rep ho))
    obtain ⟨hput, hexact₃⟩ := Exact.putSlot (s := some H.next) hexact₂ ho₂ hi
    have hr₃ := hr₂
    rw [← rep_setRep_of_ne (Ne.symm hop)] at hr₃
    obtain ⟨hdestroy, hexact₄⟩ := hexact₃.destroy_shared hr₃ hc₂
    refine ⟨H.next, _, ?_, hexact₄, ⟨?_, fun q r' hq hqo _ => ?_⟩, ?_, ?_, ?_, Ne.symm hone,
      fun q' hq' hne' => hexact₄.slotsOf_eq_nil ?_⟩
    · rw [writeCopy, get, slotsOf_of_rep ho, hi]
      simp only [Option.bind_eq_bind, Option.bind_some, hr, hc, if_false, halloc, hclone, hput, hdestroy]
    · exact hnext₂ ▸ Nat.le_succ _
    · rw [(same_setCounter hr₃ _).shape q, shape_setSlots, if_neg hqo]
      exact hshape₂ q (Nat.ne_of_lt hq)
    · exact hvars₂
    · rw [(same_setCounter hr₃ _).shape o, shape_setSlots, if_pos rfl]
    · rw [rep_setRep, if_neg (Ne.symm hne), rep_setRep_of_ne (Ne.symm hone)]
      exact hrep₂
    · rw [next_setRep, next_setRep, hnext₂]
      exact Nat.lt_of_le_of_ne hq' (Ne.symm hne')

/-! ### Sole owners -/

/-- A counter at one leaves room for one handle only. -/
lemma Exact.sole_var {i : Nat} (h : Exact H pending) (hi : H.vars[i]? = some (some p))
    (hr : H.rep p = some r) (hc : r.counter = 1) :
    some p ∉ H.vars.set i none ∧ ∀ q, some p ∉ H.slotsOf q := by
  have hcounter := h.counter p
  have hcount := count_set_add hi none p
  rw [counterOf_of_rep hr, refs] at hcounter
  simp only [Option.toList_some, Option.toList_none, List.count_nil, List.count_cons_self] at hcount
  constructor
  · rw [← List.count_eq_zero]
    omega
  · intro q hmem
    have hq : q < H.next := by
      by_contra hle
      rw [h.slotsOf_eq_nil (Nat.le_of_not_lt hle)] at hmem
      simp at hmem
    have hpos := List.count_pos_iff.mpr hmem
    have hle : (H.slotsOf q).count (some p) ≤ ∑ q ∈ Finset.range H.next, (H.slotsOf q).count (some p) :=
      Finset.single_le_sum (f := fun q => (H.slotsOf q).count (some p)) (fun q _ => Nat.zero_le _)
        (Finset.mem_range.mpr hq)
    omega

/-- The same with the one pointer in a slot. -/
lemma Exact.sole_slot {o : Ptr} (h : Exact H pending) (ho : some p ∈ H.slotsOf o)
    (hr : H.rep p = some r) (hc : r.counter = 1) :
    some p ∉ H.vars ∧ ∀ q, q ≠ o → some p ∉ H.slotsOf q := by
  have hlt : ∀ q, some p ∈ H.slotsOf q → q < H.next := by
    intro q hmem
    by_contra hle
    rw [h.slotsOf_eq_nil (Nat.le_of_not_lt hle)] at hmem
    simp at hmem
  have hcounter := h.counter p
  rw [counterOf_of_rep hr, refs] at hcounter
  have hpos := List.count_pos_iff.mpr ho
  have hmem := Finset.mem_range.mpr (hlt o ho)
  have hsum : ∑ q ∈ Finset.range H.next, (H.slotsOf q).count (some p) = (H.slotsOf o).count (some p) +
      ∑ q ∈ Finset.range H.next \ {o}, (H.slotsOf q).count (some p) :=
    Finset.sum_eq_add_sum_sdiff_singleton_of_mem hmem fun q => (H.slotsOf q).count (some p)
  constructor
  · rw [← List.count_eq_zero]
    omega
  · intro q hne hq
    have hpos' := List.count_pos_iff.mpr hq
    have hle : (H.slotsOf q).count (some p) ≤
        ∑ q ∈ Finset.range H.next \ {o}, (H.slotsOf q).count (some p) :=
      Finset.single_le_sum (f := fun q => (H.slotsOf q).count (some p)) (fun q _ => Nat.zero_le _)
        (by simp [hlt q hq, hne])
    omega

end Heap

end YastCore.RefHeap
