import Mathlib.Data.List.Basic
import Mathlib.Tactic.Common

/-!
# Doubly linked lists

A part of a doubly linked list is the list of its nodes, with what stands before and after it. The
links are two functions on nodes; changing a few of them inserts, replaces or removes a node.
-/

namespace LinkedList

variable {P : Type}

/-- The nodes `l` are linked in this order, between `before` and `after`. -/
def Linked (prev next : P → Option P) : Option P → List P → Option P → Prop
  | _, [], _ => True
  | before, p :: l, after =>
    prev p = before ∧ next p = l.head?.or after ∧ Linked prev next (some p) l after

/-- The nodes of `l` point outwards one after the other. -/
def Stacked (outer : P → Option P) : List P → Prop
  | [] => True
  | p :: l => outer p = l.head? ∧ Stacked outer l

variable {prev next prev' next' : P → Option P} {before after : Option P}

lemma linked_congr {l : List P} (h : Linked prev next before l after)
    (hprev : ∀ x ∈ l, prev' x = prev x) (hnext : ∀ x ∈ l, next' x = next x) :
    Linked prev' next' before l after := by
  induction l generalizing before with
  | nil => trivial
  | cons p l ih =>
    obtain ⟨hp, hn, hl⟩ := h
    refine ⟨?_, ?_, ?_⟩
    · rw [hprev p (by simp), hp]
    · rw [hnext p (by simp), hn]
    · exact ih hl (fun x hx => hprev x (by simp [hx])) fun x hx => hnext x (by simp [hx])

lemma linked_append {a b : List P} : Linked prev next before (a ++ b) after ↔
    Linked prev next before a (b.head?.or after) ∧
      Linked prev next (a.getLast?.or before) b after := by
  induction a generalizing before with
  | nil => simp [Linked]
  | cons p a ih =>
    rw [List.cons_append, Linked, ih, Linked]
    have hhead : (a ++ b).head?.or after = a.head?.or (b.head?.or after) := by
      rw [List.head?_append, Option.or_assoc]
    have hlast : (p :: a).getLast?.or before = a.getLast?.or (some p) := by
      rw [List.getLast?_cons]
      cases a.getLast? <;> rfl
    rw [hhead, hlast, and_assoc, and_assoc]

/-- A node has its neighbours for links. -/
lemma linked_node {a b : List P} {p : P} (h : Linked prev next none (a ++ p :: b) none) :
    Linked prev next none a (some p) ∧ prev p = a.getLast? ∧ next p = b.head? ∧
      Linked prev next (some p) b none := by
  obtain ⟨ha, hp, hn, hb⟩ := linked_append.mp h
  exact ⟨by simpa using ha, by simpa using hp, by simpa using hn, hb⟩

lemma linked_of_node {a b : List P} {p : P} (ha : Linked prev next none a (some p))
    (hp : prev p = a.getLast?) (hn : next p = b.head?) (hb : Linked prev next (some p) b none) :
    Linked prev next none (a ++ p :: b) none := by
  refine linked_append.mpr ⟨by simpa using ha, ?_, ?_, hb⟩
  · simpa using hp
  · simpa using hn

/-- The link forward from the last node. -/
lemma linked_setAfter {l : List P} {after' : Option P} (h : Linked prev next before l after)
    (hnd : l.Nodup) (hprev : ∀ x ∈ l, prev' x = prev x)
    (hlast : ∀ x, l.getLast? = some x → next' x = after')
    (hnext : ∀ x ∈ l, l.getLast? ≠ some x → next' x = next x) :
    Linked prev' next' before l after' := by
  induction l generalizing before with
  | nil => trivial
  | cons p l ih =>
    obtain ⟨hp, hn, hl⟩ := h
    obtain ⟨hpl, hnd⟩ := List.nodup_cons.mp hnd
    refine ⟨by rw [hprev p (by simp), hp], ?_, ?_⟩
    · cases l with
      | nil => exact hlast p rfl
      | cons q l =>
        have hne : (p :: q :: l).getLast? ≠ some p := by
          intro hlp
          rw [List.getLast?_cons_cons] at hlp
          exact hpl (List.mem_of_getLast? hlp)
        rw [hnext p (by simp) hne, hn]
        rfl
    · cases l with
      | nil => trivial
      | cons q l =>
        apply ih hl hnd (fun x hx => hprev x (by simp [hx]))
        · intro x hx
          exact hlast x (by rw [List.getLast?_cons_cons, hx])
        · intro x hx hne
          exact hnext x (by simp [hx]) (by rwa [List.getLast?_cons_cons])

/-- The link back from the first node. -/
lemma linked_setBefore {l : List P} {before' : Option P} (h : Linked prev next before l after)
    (hnd : l.Nodup) (hfirst : ∀ x, l.head? = some x → prev' x = before')
    (hprev : ∀ x ∈ l, l.head? ≠ some x → prev' x = prev x) (hnext : ∀ x ∈ l, next' x = next x) :
    Linked prev' next' before' l after := by
  cases l with
  | nil => trivial
  | cons p l =>
    obtain ⟨-, hn, hl⟩ := h
    obtain ⟨hpl, -⟩ := List.nodup_cons.mp hnd
    refine ⟨hfirst p rfl, by rw [hnext p (by simp), hn], ?_⟩
    apply linked_congr hl
    · intro x hx
      apply hprev x (by simp [hx])
      intro hhead
      rw [List.head?_cons, Option.some.injEq] at hhead
      exact hpl (hhead ▸ hx)
    · intro x hx
      exact hnext x (by simp [hx])

/-- What is around a node `p` when its neighbours are told about `q` instead; `q` is none when the
neighbours are linked to each other. -/
lemma linked_around {a b : List P} {p : P} {toNext toPrev : Option P}
    (h : Linked prev next none (a ++ p :: b) none) (hnd : (a ++ p :: b).Nodup)
    (hlast : ∀ x, prev p = some x → next' x = toNext)
    (hfirst : ∀ x, next p = some x → prev' x = toPrev)
    (hprev : ∀ x ∈ a ++ b, next p ≠ some x → prev' x = prev x)
    (hnext : ∀ x ∈ a ++ b, prev p ≠ some x → next' x = next x) :
    Linked prev' next' none a toNext ∧ Linked prev' next' toPrev b none := by
  obtain ⟨ha, hp, hn, hb⟩ := linked_node h
  obtain ⟨hnda, hndb, hdisj⟩ := List.nodup_append.mp hnd
  constructor
  · apply linked_setAfter ha hnda
    · intro x hx
      apply hprev x (by simp [hx])
      rw [hn]
      intro hhead
      exact hdisj x hx x (by simp [List.mem_of_head? hhead]) rfl
    · intro x hx
      exact hlast x (by rw [hp, hx])
    · intro x hx hne
      exact hnext x (by simp [hx]) (by rwa [hp])
  · apply linked_setBefore hb (List.nodup_cons.mp hndb).2
    · intro x hx
      exact hfirst x (by rw [hn, hx])
    · intro x hx hne
      exact hprev x (by simp [hx]) (by rwa [hn])
    · intro x hx
      apply hnext x (by simp [hx])
      rw [hp]
      intro hlast'
      exact hdisj x (List.mem_of_getLast? hlast') x (by simp [hx]) rfl

theorem linked_replace {a b : List P} {p q : P} (h : Linked prev next none (a ++ p :: b) none)
    (hnd : (a ++ p :: b).Nodup) (hpq : prev' q = prev p) (hnq : next' q = next p)
    (hlast : ∀ x, prev p = some x → next' x = some q)
    (hfirst : ∀ x, next p = some x → prev' x = some q)
    (hprev : ∀ x ∈ a ++ b, next p ≠ some x → prev' x = prev x)
    (hnext : ∀ x ∈ a ++ b, prev p ≠ some x → next' x = next x) :
    Linked prev' next' none (a ++ q :: b) none := by
  obtain ⟨-, hp, hn, -⟩ := linked_node h
  obtain ⟨ha, hb⟩ := linked_around h hnd hlast hfirst hprev hnext
  exact linked_of_node ha (hpq.trans hp) (hnq.trans hn) hb

theorem linked_remove {a b : List P} {p : P} (h : Linked prev next none (a ++ p :: b) none)
    (hnd : (a ++ p :: b).Nodup) (hlast : ∀ x, prev p = some x → next' x = next p)
    (hfirst : ∀ x, next p = some x → prev' x = prev p)
    (hprev : ∀ x ∈ a ++ b, next p ≠ some x → prev' x = prev x)
    (hnext : ∀ x ∈ a ++ b, prev p ≠ some x → next' x = next x) :
    Linked prev' next' none (a ++ b) none := by
  obtain ⟨-, hp, hn, -⟩ := linked_node h
  obtain ⟨ha, hb⟩ := linked_around h hnd hlast hfirst hprev hnext
  rw [hn] at ha
  rw [hp] at hb
  exact linked_append.mpr ⟨by simpa using ha, by simpa using hb⟩

theorem linked_concat {l : List P} {p : P} (h : Linked prev next none l none) (hnd : l.Nodup)
    (hp : prev' p = l.getLast?) (hn : next' p = none)
    (hlast : ∀ x, l.getLast? = some x → next' x = some p) (hprev : ∀ x ∈ l, prev' x = prev x)
    (hnext : ∀ x ∈ l, l.getLast? ≠ some x → next' x = next x) :
    Linked prev' next' none (l ++ [p]) none :=
  linked_of_node (linked_setAfter h hnd hprev hlast hnext) hp hn trivial

lemma stacked_congr {outer outer' : P → Option P} {l : List P} (h : Stacked outer l)
    (heq : ∀ x ∈ l, outer' x = outer x) : Stacked outer' l := by
  induction l with
  | nil => trivial
  | cons p l ih =>
    obtain ⟨hp, hl⟩ := h
    refine ⟨by rw [heq p (by simp), hp], ih hl fun x hx => heq x (by simp [hx])⟩

/-- The link from the last node to a new one. -/
lemma stacked_concat {outer outer' : P → Option P} {l : List P} {p : P} (h : Stacked outer l) (hnd : l.Nodup)
    (hlast : ∀ x, l.getLast? = some x → outer' x = some p)
    (hother : ∀ x ∈ l, l.getLast? ≠ some x → outer' x = outer x) (hp : outer' p = none) :
    Stacked outer' (l ++ [p]) := by
  induction l with
  | nil => exact ⟨hp, trivial⟩
  | cons q l ih =>
    obtain ⟨hq, hl⟩ := h
    obtain ⟨hql, hnd⟩ := List.nodup_cons.mp hnd
    cases l with
    | nil => exact ⟨hlast q rfl, hp, trivial⟩
    | cons r l =>
      have hne : (q :: r :: l).getLast? ≠ some q := by
        rw [List.getLast?_cons_cons]
        exact fun hlq => hql (List.mem_of_getLast? hlq)
      refine ⟨by rw [hother q List.mem_cons_self hne, hq]; rfl, ih hl hnd ?_ ?_⟩
      · intro x hx
        exact hlast x (by rw [List.getLast?_cons_cons, hx])
      · intro x hx hxl
        exact hother x (List.mem_cons_of_mem q hx) (by rwa [List.getLast?_cons_cons])

/-- The nodes from one on, as far as so many steps lead. -/
def walk (outer : P → Option P) : ℕ → Option P → List P
  | _, none => []
  | 0, some _ => []
  | n + 1, some p => p :: walk outer n (outer p)

lemma walk_stacked {outer : P → Option P} {l : List P} {n : ℕ} (h : Stacked outer l) (hn : l.length ≤ n) :
    walk outer n l.head? = l := by
  induction l generalizing n with
  | nil => cases n <;> rfl
  | cons p l ih =>
    cases n with
    | zero => cases hn
    | succ n =>
      rw [List.head?_cons, walk, h.1, ih h.2 (Nat.le_of_succ_le_succ hn)]

end LinkedList
