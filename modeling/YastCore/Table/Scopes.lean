import Mathlib.Data.List.Nodup
import Mathlib.Data.List.Perm.Subperm
import YastCore.Lib.LinkedList
import YastCore.Table.SymbolTable

/-!
# The symbol table as a map with scopes

As long as no entry is overloaded and an entry is only removed when it is the innermost one of its
key, the table finds for each key the live entry that was entered last.
-/

namespace YastCore.SymbolTable

open LinkedList

/-- Of the live entries, latest first, the first one of a key. -/
def innermost (t : SymbolTable) (live : List EntryPtr) (key : Text) : Option EntryPtr :=
  live.find? fun p => t.key p = key

/-- The live entries `live`, latest first, and for each bucket the entries in its list: of every key
the innermost entry is in the list, and the others hang on it. -/
structure Scoped (hash : Text → Nat) (t : SymbolTable) (live : List EntryPtr)
    (heads : Nat → List EntryPtr) : Prop where
  nodup : live.Nodup
  allocated : ∀ p ∈ live, t.allocated p = true
  lt_fresh : ∀ p ∈ live, p < t.fresh
  mem_heads : ∀ h p, p ∈ heads h ↔ hash (t.key p) = h ∧ innermost t live (t.key p) = some p
  heads_nodup : ∀ h, (heads h).Nodup
  table : ∀ h, t.table h = (heads h).head?
  linked : ∀ h, Linked t.prev t.next none (heads h) none
  stacked : ∀ key, Stacked t.outer (live.filter fun p => t.key p = key)

lemma scoped_empty (hash : Text → Nat) : Scoped hash empty [] fun _ => [] where
  nodup := List.nodup_nil
  allocated := by simp
  lt_fresh := by simp
  mem_heads := by simp [innermost]
  heads_nodup _ := List.nodup_nil
  table _ := rfl
  linked _ := trivial
  stacked _ := trivial

variable {hash : Text → Nat} {t t' : SymbolTable} {live live' : List EntryPtr}
  {heads : Nat → List EntryPtr} {key : Text} {p q entry : EntryPtr}

lemma innermost_mem (h : innermost t live key = some p) : p ∈ live := List.mem_of_find?_eq_some h

lemma innermost_key (h : innermost t live key = some p) : t.key p = key := by
  simpa using List.find?_some h

lemma innermost_eq_head? (t : SymbolTable) (live : List EntryPtr) (key : Text) :
    innermost t live key = (live.filter fun p => t.key p = key).head? := by
  rw [innermost, List.head?_filter]

lemma Scoped.live_of_mem_heads (S : Scoped hash t live heads) {h : Nat} (hp : p ∈ heads h) :
    p ∈ live := innermost_mem ((S.mem_heads h p).mp hp).2

lemma Scoped.mem_heads_innermost (S : Scoped hash t live heads)
    (h : innermost t live key = some p) : p ∈ heads (hash key) := by
  rw [S.mem_heads, innermost_key h]
  exact ⟨rfl, h⟩

/-- A bucket list has one entry of each key. -/
lemma Scoped.eq_of_key_eq (S : Scoped hash t live heads) {h h' : Nat} (hp : p ∈ heads h)
    (hq : q ∈ heads h') (hkey : t.key p = t.key q) : p = q := by
  have hpin := ((S.mem_heads h p).mp hp).2
  rw [hkey, ((S.mem_heads h' q).mp hq).2] at hpin
  exact (Option.some.inj hpin).symm

lemma Scoped.length_heads_le (S : Scoped hash t live heads) (h : Nat) :
    (heads h).length ≤ t.fresh := by
  have hsub : heads h ⊆ List.range t.fresh := by
    intro x hx
    exact List.mem_range.mpr (S.lt_fresh x (S.live_of_mem_heads hx))
  have hle := (List.subperm_of_subset (S.heads_nodup h) hsub).length_le
  rwa [List.length_range] at hle

/-! ### Finding -/

/-- The bucket list of a key holds what is looked for. -/
lemma Scoped.find?_heads (S : Scoped hash t live heads) (key : Text) :
    (heads (hash key)).find? (fun p => t.key p = key) = innermost t live key := by
  cases hin : innermost t live key with
  | none =>
    rw [List.find?_eq_none]
    intro x hx hkey
    have hxin := ((S.mem_heads _ x).mp hx).2
    rw [decide_eq_true_eq.mp hkey, hin] at hxin
    cases hxin
  | some p =>
    have hp := S.mem_heads_innermost hin
    cases hfind : (heads (hash key)).find? fun p => decide (t.key p = key) with
    | none =>
      have hno := List.find?_eq_none.mp hfind p hp
      exact absurd (decide_eq_true (innermost_key hin)) hno
    | some x =>
      have hx := List.mem_of_find?_eq_some hfind
      have hxkey : t.key x = key := by simpa using List.find?_some hfind
      rw [S.eq_of_key_eq hx hp (hxkey.trans (innermost_key hin).symm)]

lemma findLoop_linked (key : Text) (l : List EntryPtr) (before : Option EntryPtr) (fuel : Nat)
    (hl : Linked t.prev t.next before l none) (halloc : ∀ x ∈ l, t.allocated x = true)
    (hfuel : l.length ≤ fuel) :
    findLoop t key .c_unspec fuel l.head? = some (l.find? fun p => t.key p = key) := by
  induction l generalizing before fuel with
  | nil => cases fuel <;> rfl
  | cons x l ih =>
    obtain ⟨-, hn, hl⟩ := hl
    cases fuel with
    | zero => simp at hfuel
    | succ fuel =>
      have hx : t.allocated x = true := halloc x (by simp)
      rw [List.head?_cons, findLoop, if_pos hx]
      by_cases hkey : t.key x = key
      · rw [if_pos hkey.symm, List.find?_cons_of_pos (by simpa using hkey)]
        simp
      · rw [if_neg (fun h => hkey h.symm), List.find?_cons_of_neg (by simpa using hkey), hn,
          Option.or_none]
        exact ih (some x) fuel hl (fun y hy => halloc y (by simp [hy])) (by simpa using hfuel)

theorem Scoped.find_eq (S : Scoped hash t live heads) (key : Text) :
    find hash t key .c_unspec = some (innermost t live key) := by
  rw [find, S.table, findLoop_linked key _ none _ (S.linked _) _ (S.length_heads_le _),
    S.find?_heads]
  exact fun x hx => S.allocated x (S.live_of_mem_heads hx)

/-! ### A change of one bucket -/

/-- One key gets a new innermost entry, and its bucket a new list. -/
lemma Scoped.rebuild (S : Scoped hash t live heads) {hs : List EntryPtr} (hkey : t'.key = t.key)
    (hnodup : live'.Nodup) (halloc : ∀ p ∈ live', t'.allocated p = true)
    (hfresh : ∀ p ∈ live', p < t'.fresh)
    (hother : ∀ key', key' ≠ key → innermost t live' key' = innermost t live key')
    (hhs : ∀ x, x ∈ hs ↔
      (x ∈ heads (hash key) ∧ t.key x ≠ key) ∨ innermost t live' key = some x)
    (hhsnd : hs.Nodup) (htable : t'.table = Function.update t.table (hash key) hs.head?)
    (hlinked : Linked t'.prev t'.next none hs none)
    (hframe : ∀ h x, h ≠ hash key → x ∈ heads h → t'.prev x = t.prev x ∧ t'.next x = t.next x)
    (hstacked : ∀ key, Stacked t'.outer (live'.filter fun p => t.key p = key)) :
    Scoped hash t' live' (Function.update heads (hash key) hs) where
  nodup := hnodup
  allocated := halloc
  lt_fresh := hfresh
  mem_heads h x := by
    have hin : innermost t' live' = innermost t live' := by
      unfold innermost
      rw [hkey]
    rw [hin, hkey]
    by_cases hh : h = hash key
    · rw [hh, Function.update_self, hhs, S.mem_heads]
      by_cases hx : t.key x = key
      · rw [hx]
        simp
      · rw [hother _ hx]
        constructor
        · rintro (⟨hmem, -⟩ | hmem)
          · exact hmem
          · exact absurd (innermost_key hmem) hx
        · exact fun hmem => .inl ⟨hmem, hx⟩
    · rw [Function.update_of_ne hh, S.mem_heads]
      by_cases hx : t.key x = key
      · rw [hx]
        simp [Ne.symm hh]
      · rw [hother _ hx]
  heads_nodup h := by
    by_cases hh : h = hash key
    · rwa [hh, Function.update_self]
    · rw [Function.update_of_ne hh]
      exact S.heads_nodup h
  table h := by
    rw [htable]
    by_cases hh : h = hash key
    · rw [hh, Function.update_self, Function.update_self]
    · rw [Function.update_of_ne hh, Function.update_of_ne hh, S.table]
  linked h := by
    by_cases hh : h = hash key
    · rwa [hh, Function.update_self]
    · rw [Function.update_of_ne hh]
      exact linked_congr (S.linked h) (fun x hx => (hframe h x hh hx).1)
        fun x hx => (hframe h x hh hx).2
  stacked key' := by
    rw [hkey]
    exact hstacked key'

/-! ### One entry in the place of another -/

/-- The links of `t'` are those of `t` with `new` in the place of `old`. -/
structure Replaced (t t' : SymbolTable) (old new : EntryPtr) : Prop where
  prev_new : t'.prev new = t.prev old
  next_new : t'.next new = t.next old
  last : ∀ x, t.prev old = some x → t'.next x = some new
  first : ∀ x, t.next old = some x → t'.prev x = some new
  prev_same : ∀ x, x ≠ old → x ≠ new → t.next old ≠ some x → t'.prev x = t.prev x
  next_same : ∀ x, x ≠ old → x ≠ new → t.prev old ≠ some x → t'.next x = t.next x

/-- What only the links do not show. -/
structure SameEntries (t t' : SymbolTable) : Prop where
  key : t'.key = t.key
  allocated : t'.allocated = t.allocated
  fresh : t'.fresh = t.fresh

lemma Replaced.linked (R : Replaced t t' p q) {a b : List EntryPtr}
    (h : Linked t.prev t.next none (a ++ p :: b) none) (hnd : (a ++ p :: b).Nodup)
    (hq : q ∉ a ++ p :: b) : Linked t'.prev t'.next none (a ++ q :: b) none := by
  have hne : ∀ x ∈ a ++ b, x ≠ p ∧ x ≠ q := by
    intro x hx
    constructor
    · rintro rfl
      exact (List.nodup_cons.mp (List.nodup_middle.mp hnd)).1 hx
    · rintro rfl
      apply hq
      simp only [List.mem_append, List.mem_cons] at hx ⊢
      tauto
  refine linked_replace h hnd R.prev_new R.next_new R.last R.first ?_ ?_
  · exact fun x hx hn => R.prev_same x (hne x hx).1 (hne x hx).2 hn
  · exact fun x hx hp => R.next_same x (hne x hx).1 (hne x hx).2 hp

/-- Where the entries of a bucket point to. -/
lemma Scoped.mem_of_link (S : Scoped hash t live heads) {h : Nat} (hp : p ∈ heads h)
    (hlink : t.prev p = some q ∨ t.next p = some q) : q ∈ heads h ∧ q ≠ p := by
  obtain ⟨a, b, hab⟩ := List.append_of_mem hp
  have hl := S.linked h
  have hnd := S.heads_nodup h
  rw [hab] at hl hnd
  obtain ⟨-, hprev, hnext, -⟩ := linked_node hl
  have hmem : q ∈ a ++ b := by
    rcases hlink with hq | hq
    · exact List.mem_append_left _ (List.mem_of_getLast? (hprev ▸ hq))
    · exact List.mem_append_right _ (List.mem_of_head? (hnext ▸ hq))
  constructor
  · rw [hab]
    simp only [List.mem_append, List.mem_cons] at hmem ⊢
    tauto
  · rintro rfl
    exact (List.nodup_cons.mp (List.nodup_middle.mp hnd)).1 hmem

lemma Scoped.prev_ne_next (S : Scoped hash t live heads) {h : Nat} (hp : p ∈ heads h)
    (hprev : t.prev p = some q) : t.next p ≠ some q := by
  intro hnext
  obtain ⟨a, b, hab⟩ := List.append_of_mem hp
  have hl := S.linked h
  have hnd := S.heads_nodup h
  rw [hab] at hl hnd
  obtain ⟨-, hpa, hpb, -⟩ := linked_node hl
  have ha : q ∈ a := List.mem_of_getLast? (hpa ▸ hprev)
  have hb : q ∈ p :: b := List.mem_cons_of_mem p (List.mem_of_head? (hpb ▸ hnext))
  exact (List.nodup_append.mp hnd).2.2 q ha q hb rfl

/-- The bucket list of `old` with `new` in its place. -/
lemma Scoped.table_replaced (S : Scoped hash t live heads) {h : Nat} {a b : List EntryPtr}
    (hab : heads h = a ++ p :: b)
    (htable : t'.table = if t.prev p = none then Function.update t.table h (some q) else t.table) :
    t'.table = Function.update t.table h (a ++ q :: b).head? := by
  have hl := S.linked h
  rw [hab] at hl
  have hprev := (linked_node hl).2.1
  rw [htable, hprev]
  cases a with
  | nil => simp
  | cons x a =>
    have hne : ¬(x :: a).getLast? = none := by simp
    have hhead : t.table h = some x := by rw [S.table, hab]; rfl
    rw [if_neg hne]
    simp only [List.cons_append, List.head?_cons]
    rw [← hhead, Function.update_eq_self]

/-! ### Entering -/

lemma newEntry_key (t : SymbolTable) (key : Text) (n : Nat) (c : Category) (h : p ≠ t.fresh) :
    (t.newEntry key n c).key p = t.key p := Function.update_of_ne h _ _

lemma Scoped.ne_fresh (S : Scoped hash t live heads) (hp : p ∈ live) : p ≠ t.fresh :=
  Nat.ne_of_lt (S.lt_fresh p hp)

lemma Scoped.innermost_newEntry (S : Scoped hash t live heads) (key : Text) (n : Nat) (c : Category)
    (k : Text) : innermost (t.newEntry key n c) live k = innermost t live k := by
  rw [innermost_eq_head?, innermost_eq_head?]
  congr 1
  apply List.filter_congr
  intro p hp
  rw [newEntry_key t key n c (S.ne_fresh hp)]

/-- A new entry that is in no list changes nothing yet. -/
lemma Scoped.newEntry (S : Scoped hash t live heads) (key : Text) (n : Nat) (c : Category) :
    Scoped hash (t.newEntry key n c) live heads := by
  have hne : ∀ p ∈ live, p ≠ t.fresh := fun p hp => S.ne_fresh hp
  refine ⟨S.nodup, ?_, ?_, ?_, S.heads_nodup, S.table, ?_, ?_⟩
  · intro p hp
    exact (Function.update_of_ne (hne p hp) _ _).trans (S.allocated p hp)
  · exact fun p hp => Nat.lt_succ_of_lt (S.lt_fresh p hp)
  · intro h p
    by_cases hp : p ∈ live
    · rw [newEntry_key t key n c (hne p hp), S.innermost_newEntry]
      exact S.mem_heads h p
    · constructor
      · exact fun hmem => absurd (S.live_of_mem_heads hmem) hp
      · exact fun hmem => absurd (innermost_mem hmem.2) hp
  · intro h
    apply linked_congr (S.linked h)
    · exact fun x hx => Function.update_of_ne (hne x (S.live_of_mem_heads hx)) _ _
    · exact fun x hx => Function.update_of_ne (hne x (S.live_of_mem_heads hx)) _ _
  · intro k
    have hfilter : live.filter (fun p => decide ((t.newEntry key n c).key p = k)) =
        live.filter fun p => t.key p = k := by
      apply List.filter_congr
      intro p hp
      rw [newEntry_key t key n c (hne p hp)]
    rw [hfilter]
    apply stacked_congr (S.stacked k)
    intro x hx
    exact Function.update_of_ne (hne x (List.mem_of_mem_filter hx)) _ _

/-- An allocated entry that is in no list. -/
structure Detached (t : SymbolTable) (live : List EntryPtr) (entry : EntryPtr) : Prop where
  not_live : entry ∉ live
  allocated : t.allocated entry = true
  lt_fresh : entry < t.fresh
  prev : t.prev entry = none
  next : t.next entry = none
  outer : t.outer entry = none

lemma Scoped.detached_newEntry (S : Scoped hash t live heads) (key : Text) (n : Nat) (c : Category) :
    Detached (t.newEntry key n c) live t.fresh where
  not_live h := Nat.lt_irrefl _ (S.lt_fresh _ h)
  allocated := Function.update_self _ _ _
  lt_fresh := Nat.lt_succ_self _
  prev := Function.update_self _ _ _
  next := Function.update_self _ _ _
  outer := Function.update_self _ _ _

lemma innermost_cons (hkey : t.key entry = key) (key' : Text) :
    innermost t (entry :: live) key' = if key' = key then some entry else innermost t live key' := by
  rw [innermost, List.find?_cons]
  by_cases h : key' = key
  · simp [h, hkey]
  · have hne : ¬t.key entry = key' := fun he => h (he.symm.trans hkey)
    simp [h, hne, innermost]

/-- The scope chains after an entry has become the innermost one of its key. -/
lemma Scoped.stacked_cons (S : Scoped hash t live heads) (D : Detached t live entry)
    (houter : t'.outer = Function.update t.outer entry (innermost t live (t.key entry)))
    (key : Text) : Stacked t'.outer ((entry :: live).filter fun p => t.key p = key) := by
  have hold : Stacked t'.outer (live.filter fun p => t.key p = key) := by
    apply stacked_congr (S.stacked key)
    intro x hx
    rw [houter, Function.update_of_ne]
    rintro rfl
    exact D.not_live (List.mem_of_mem_filter hx)
  by_cases hkey : t.key entry = key
  · rw [List.filter_cons_of_pos (by simpa using hkey)]
    refine ⟨?_, hold⟩
    rw [houter, Function.update_self, innermost_eq_head?, hkey]
  · rw [List.filter_cons_of_neg (by simpa using hkey)]
    exact hold

/-- The common part of all ways to enter: what is left is the new list of the bucket. -/
lemma Scoped.entered (S : Scoped hash t live heads) (D : Detached t live entry)
    (E : SameEntries t t') (hs : List EntryPtr)
    (houter : t'.outer = Function.update t.outer entry (innermost t live (t.key entry)))
    (hhs : ∀ x, x ∈ hs ↔ (x ∈ heads (hash (t.key entry)) ∧ t.key x ≠ t.key entry) ∨ x = entry)
    (hhsnd : hs.Nodup)
    (htable : t'.table = Function.update t.table (hash (t.key entry)) hs.head?)
    (hlinked : Linked t'.prev t'.next none hs none)
    (hframe : ∀ h x, h ≠ hash (t.key entry) → x ∈ heads h →
      t'.prev x = t.prev x ∧ t'.next x = t.next x) :
    Scoped hash t' (entry :: live) (Function.update heads (hash (t.key entry)) hs) := by
  apply S.rebuild E.key _ _ _ _ _ hhsnd htable hlinked hframe (S.stacked_cons D houter)
  · exact List.nodup_cons.mpr ⟨D.not_live, S.nodup⟩
  · intro p hp
    rw [E.allocated]
    rcases List.mem_cons.mp hp with rfl | hp
    · exact D.allocated
    · exact S.allocated p hp
  · intro p hp
    rw [E.fresh]
    rcases List.mem_cons.mp hp with rfl | hp
    · exact D.lt_fresh
    · exact S.lt_fresh p hp
  · intro key' hne
    rw [innermost_cons rfl, if_neg hne]
  · intro x
    rw [hhs, innermost_cons rfl, if_pos rfl, Option.some.injEq, eq_comm (a := entry)]

/-! #### In the place of an entry with the same key -/

lemma enterScope_spec {h : Nat} {bucket : EntryPtr} (hentry : t.allocated entry = true)
    (hbucket : t.allocated bucket = true) (hne : entry ≠ bucket)
    (hlinks : ∀ x, t.prev bucket = some x ∨ t.next bucket = some x →
      t.allocated x = true ∧ x ≠ bucket ∧ x ≠ entry)
    (hprevnext : ∀ x, t.prev bucket = some x → t.next bucket ≠ some x) :
    ∃ t', enterScope t h entry bucket = some t' ∧ SameEntries t t' ∧ Replaced t t' bucket entry ∧
      t'.outer = Function.update t.outer entry (some bucket) ∧
      t'.table = if t.prev bucket = none then Function.update t.table h (some entry) else t.table := by
  cases hp : t.prev bucket with
  | none =>
    cases hn : t.next bucket with
    | none =>
      apply Exists.intro
      apply And.intro
      · simp only [enterScope, setOuter, setPrev, setNext, setBucket, hentry, hbucket, hp, hn, if_true,
          Option.bind_eq_bind, Option.bind_some]
        rfl
      · refine ⟨⟨rfl, rfl, rfl⟩, ?_, rfl, by simp⟩
        constructor <;> grind
    | some r =>
      obtain ⟨hr, hrb, hre⟩ := hlinks r (.inr hn)
      apply Exists.intro
      apply And.intro
      · simp only [enterScope, setOuter, setPrev, setNext, setBucket, hentry, hbucket, hp, hn, hr, if_true,
          Option.bind_eq_bind, Option.bind_some]
        rfl
      · refine ⟨⟨rfl, rfl, rfl⟩, ?_, rfl, by simp⟩
        constructor <;> grind
  | some q =>
    obtain ⟨hq, hqb, hqe⟩ := hlinks q (.inl hp)
    cases hn : t.next bucket with
    | none =>
      apply Exists.intro
      apply And.intro
      · simp only [enterScope, setOuter, setPrev, setNext, setBucket, hentry, hbucket, hp, hn, hq, if_true,
          Option.bind_eq_bind, Option.bind_some, Function.update_of_ne hqb.symm]
        rfl
      · refine ⟨⟨rfl, rfl, rfl⟩, ?_, rfl, by simp⟩
        constructor <;> grind
    | some r =>
      obtain ⟨hr, hrb, hre⟩ := hlinks r (.inr hn)
      apply Exists.intro
      apply And.intro
      · simp only [enterScope, setOuter, setPrev, setNext, setBucket, hentry, hbucket, hp, hn, hq, hr,
          if_true, Option.bind_eq_bind, Option.bind_some, Function.update_of_ne hqb.symm]
        rfl
      · refine ⟨⟨rfl, rfl, rfl⟩, ?_, rfl, by simp⟩
        constructor <;> grind

lemma Scoped.enterScope (S : Scoped hash t live heads) (D : Detached t live entry)
    {bucket : EntryPtr} (hin : innermost t live (t.key entry) = some bucket) :
    ∃ t' hs, t.enterScope (hash (t.key entry)) entry bucket = some t' ∧ SameEntries t t' ∧
      Scoped hash t' (entry :: live) hs := by
  have hmem := S.mem_heads_innermost hin
  have hlive : ∀ {h x}, x ∈ heads h → t.allocated x = true ∧ x ≠ entry := by
    intro h x hx
    have hxl := S.live_of_mem_heads hx
    refine ⟨S.allocated x hxl, ?_⟩
    rintro rfl
    exact D.not_live hxl
  obtain ⟨t', hstep, E, R, houter, htable⟩ := enterScope_spec (h := hash (t.key entry)) D.allocated
    (hlive hmem).1 (hlive hmem).2.symm
    (fun x hx => ⟨(hlive (S.mem_of_link hmem hx).1).1, (S.mem_of_link hmem hx).2,
      (hlive (S.mem_of_link hmem hx).1).2⟩)
    (fun x hx => S.prev_ne_next hmem hx)
  obtain ⟨a, b, hab⟩ := List.append_of_mem hmem
  have hnd := S.heads_nodup (hash (t.key entry))
  have hl := S.linked (hash (t.key entry))
  rw [hab] at hnd hl
  have hnew : entry ∉ a ++ bucket :: b := by
    intro he
    rw [← hab] at he
    exact (hlive he).2 rfl
  refine ⟨t', _, hstep, E, S.entered D E _ (by rw [houter, hin]) ?_ ?_ (S.table_replaced hab htable)
    (R.linked hl hnd hnew) ?_⟩
  · intro x
    rw [hab]
    have hkey : ∀ y ∈ a ++ b, t.key y ≠ t.key entry := by
      intro y hy hk
      have hyh : y ∈ heads (hash (t.key entry)) := by
        rw [hab]
        simp only [List.mem_append, List.mem_cons] at hy ⊢
        tauto
      have hyb := S.eq_of_key_eq hyh hmem (hk.trans (innermost_key hin).symm)
      rw [hyb] at hy
      exact (List.nodup_cons.mp (List.nodup_middle.mp hnd)).1 hy
    have hbk := innermost_key hin
    simp only [List.mem_append, List.mem_cons] at hkey ⊢
    grind
  · rw [List.nodup_middle, List.nodup_cons]
    rw [List.nodup_middle, List.nodup_cons] at hnd
    refine ⟨?_, hnd.2⟩
    intro he
    apply hnew
    simp only [List.mem_append, List.mem_cons] at he ⊢
    tauto
  · intro h x hh hx
    have hne : ∀ y, y ∈ heads (hash (t.key entry)) → x ≠ y := by
      rintro y hy rfl
      exact hh (((S.mem_heads _ _).mp hx).1.symm.trans ((S.mem_heads _ _).mp hy).1)
    constructor
    · apply R.prev_same x (hne _ hmem) (hlive hx).2
      exact fun hn => hne x (S.mem_of_link hmem (.inr hn)).1 rfl
    · apply R.next_same x (hne _ hmem) (hlive hx).2
      exact fun hp => hne x (S.mem_of_link hmem (.inl hp)).1 rfl

/-! #### At the end of the bucket list -/

/-- The new entry behind the last one of its bucket. -/
def appendEntry (t : SymbolTable) (entry last : EntryPtr) : Option SymbolTable := do
  (← t.setNext last (some entry)).setPrev entry (some last)

lemma Scoped.appendEntry (S : Scoped hash t live heads) (D : Detached t live entry)
    (hin : innermost t live (t.key entry) = none) {last : EntryPtr}
    (hlast : (heads (hash (t.key entry))).getLast? = some last) :
    ∃ t' hs, t.appendEntry entry last = some t' ∧ SameEntries t t' ∧
      Scoped hash t' (entry :: live) hs := by
  have hmem := List.mem_of_getLast? hlast
  have hnlive : ∀ {h x}, x ∈ heads h → x ≠ entry := by
    rintro h x hx rfl
    exact D.not_live (S.live_of_mem_heads hx)
  have halloc := S.allocated last (S.live_of_mem_heads hmem)
  have hstep : t.appendEntry entry last = some { t with
      next := Function.update t.next last (some entry)
      prev := Function.update t.prev entry (some last) } := by
    simp [SymbolTable.appendEntry, setNext, setPrev, halloc, D.allocated]
  have E : SameEntries t { t with
      next := Function.update t.next last (some entry)
      prev := Function.update t.prev entry (some last) } := ⟨rfl, rfl, rfl⟩
  refine ⟨_, _, hstep, E, S.entered D E (heads (hash (t.key entry)) ++ [entry]) ?_ ?_ ?_ ?_ ?_ ?_⟩
  · rw [hin, ← D.outer, Function.update_eq_self]
  · intro x
    have hkey : x ∈ heads (hash (t.key entry)) → t.key x ≠ t.key entry := by
      intro hx hk
      have hxin := ((S.mem_heads _ x).mp hx).2
      rw [hk, hin] at hxin
      cases hxin
    simp only [List.mem_append, List.mem_singleton]
    tauto
  · rw [List.nodup_append]
    refine ⟨S.heads_nodup _, by simp, ?_⟩
    intro x hx y hy
    rw [List.mem_singleton.mp hy]
    exact hnlive hx
  · have hhead : (heads (hash (t.key entry)) ++ [entry]).head? = t.table (hash (t.key entry)) := by
      rw [S.table]
      cases hcase : heads (hash (t.key entry)) with
      | nil => simp [hcase] at hmem
      | cons y l => rfl
    rw [hhead, Function.update_eq_self]
  · apply linked_concat (S.linked _) (S.heads_nodup _)
    · rw [hlast]
      exact Function.update_self _ _ _
    · exact (Function.update_of_ne (hnlive hmem).symm _ _).trans D.next
    · intro x hx
      rw [hlast, Option.some.injEq] at hx
      rw [← hx]
      exact Function.update_self _ _ _
    · exact fun x hx => Function.update_of_ne (hnlive hx) _ _
    · intro x hx hne
      apply Function.update_of_ne
      rintro rfl
      exact hne hlast
  · intro h x hh hx
    refine ⟨Function.update_of_ne (hnlive hx) _ _, Function.update_of_ne ?_ _ _⟩
    rintro rfl
    exact hh (((S.mem_heads _ _).mp hx).1.symm.trans ((S.mem_heads _ _).mp hmem).1)

/-! #### The loop -/

variable (entry) in
/-- The loop stops at the entry with the same key, or at the end. -/
lemma enterLoop_linked (h : Nat) (bucket : EntryPtr) (l : List EntryPtr) (before : Option EntryPtr)
    (fuel : Nat) (hl : Linked t.prev t.next before (bucket :: l) none)
    (halloc : ∀ x ∈ bucket :: l, t.allocated x = true) (hfuel : (bucket :: l).length ≤ fuel) :
    (∀ x, (bucket :: l).find? (fun p => t.key p = t.key entry) = some x →
      enterLoop t h entry fuel bucket =
        if t.nameSpace x = t.nameSpace entry ∧ t.category x = t.category entry then
          enterOverloaded t entry t.fresh x
        else t.enterScope h entry x) ∧
    (∀ last, (bucket :: l).find? (fun p => t.key p = t.key entry) = none →
      (bucket :: l).getLast? = some last →
      enterLoop t h entry fuel bucket = t.appendEntry entry last) := by
  induction l generalizing bucket before fuel with
  | nil =>
    cases fuel with
    | zero => simp at hfuel
    | succ fuel =>
      have hb := halloc bucket (by simp)
      obtain ⟨-, hn, -⟩ := hl
      rw [enterLoop, if_pos hb]
      by_cases hkey : t.key bucket = t.key entry
      · simp only [hkey, List.find?_cons_of_pos, decide_true, if_true]
        simp +contextual
      · have hkey' : ¬t.key entry = t.key bucket := fun h => hkey h.symm
        have hn' : t.next bucket = none := by simpa using hn
        simp [hkey, hkey', hn', SymbolTable.appendEntry]
  | cons y l ih =>
    cases fuel with
    | zero => simp at hfuel
    | succ fuel =>
      have hb := halloc bucket (by simp)
      obtain ⟨-, hn, hl⟩ := hl
      have hn' : t.next bucket = some y := by simpa using hn
      have hih := ih y (some bucket) fuel hl (fun x hx => halloc x (by simp [hx]))
        (by simpa using hfuel)
      rw [enterLoop, if_pos hb]
      by_cases hkey : t.key bucket = t.key entry
      · simp only [hkey, List.find?_cons_of_pos, decide_true, if_true]
        simp +contextual
      · have hkey' : ¬t.key entry = t.key bucket := fun h => hkey h.symm
        rw [List.find?_cons_of_neg (by simpa using hkey), List.getLast?_cons_cons, if_neg hkey', hn']
        exact hih

/-- An entry that is not an overload: no other namespace and category of its key is innermost. -/
def NotOverloaded (t : SymbolTable) (live : List EntryPtr) (key : Text) (nameSpace : Nat)
    (category : Category) : Prop :=
  ∀ x, innermost t live key = some x → ¬(t.nameSpace x = nameSpace ∧ t.category x = category)

variable (entry) in
/-- Where the entry goes: it is the first of its bucket, it is put on the innermost entry of its key, or it comes
behind the last entry of the bucket. -/
lemma Scoped.enterEntry_cases (S : Scoped hash t live heads) :
    (heads (hash (t.key entry)) = [] ∧ innermost t live (t.key entry) = none ∧
      t.enterEntry hash entry = some (t.setBucket (hash (t.key entry)) (some entry))) ∨
    (∃ b, innermost t live (t.key entry) = some b ∧ t.enterEntry hash entry =
      if t.nameSpace b = t.nameSpace entry ∧ t.category b = t.category entry then
        enterOverloaded t entry t.fresh b
      else t.enterScope (hash (t.key entry)) entry b) ∨
    ∃ last, innermost t live (t.key entry) = none ∧ (heads (hash (t.key entry))).getLast? = some last ∧
      t.enterEntry hash entry = t.appendEntry entry last := by
  have htable := S.table (hash (t.key entry))
  cases hheads : heads (hash (t.key entry)) with
  | nil =>
    rw [hheads] at htable
    have hin : innermost t live (t.key entry) = none := by
      rw [← S.find?_heads, hheads]
      rfl
    exact .inl ⟨rfl, hin, by simp [SymbolTable.enterEntry, htable]⟩
  | cons bucket l =>
    rw [hheads] at htable
    have hl := S.linked (hash (t.key entry))
    have hlen := S.length_heads_le (hash (t.key entry))
    have hfind := S.find?_heads (t.key entry)
    rw [hheads] at hl hlen hfind
    have halloc : ∀ x ∈ bucket :: l, t.allocated x = true := by
      intro x hx
      rw [← hheads] at hx
      exact S.allocated x (S.live_of_mem_heads hx)
    have hloop := enterLoop_linked entry (hash (t.key entry)) bucket l none t.fresh hl halloc hlen
    have hstep : t.enterEntry hash entry =
        enterLoop t (hash (t.key entry)) entry t.fresh bucket := by
      simp [SymbolTable.enterEntry, htable]
    rw [hstep]
    cases hin : innermost t live (t.key entry) with
    | some x => exact .inr (.inl ⟨x, rfl, hloop.1 x (hfind.trans hin)⟩)
    | none =>
      have hlast : (bucket :: l).getLast? = some ((bucket :: l).getLast (by simp)) :=
        List.getLast?_eq_some_getLast _
      exact .inr (.inr ⟨_, rfl, hlast, hloop.2 _ (hfind.trans hin) hlast⟩)

lemma Scoped.enterEntry (S : Scoped hash t live heads) (D : Detached t live entry)
    (hover : NotOverloaded t live (t.key entry) (t.nameSpace entry) (t.category entry)) :
    ∃ t' hs, t.enterEntry hash entry = some t' ∧ SameEntries t t' ∧
      Scoped hash t' (entry :: live) hs := by
  rcases S.enterEntry_cases entry with ⟨hheads, hin, hstep⟩ | ⟨b, hin, hstep⟩ | ⟨last, hin, hlast, hstep⟩
  · have E : SameEntries t (t.setBucket (hash (t.key entry)) (some entry)) := ⟨rfl, rfl, rfl⟩
    refine ⟨_, _, hstep, E, S.entered D E [entry] ?_ ?_ (by simp) rfl ?_ ?_⟩
    · rw [hin, ← D.outer, Function.update_eq_self]
      rfl
    · simp [hheads]
    · exact ⟨D.prev, D.next, trivial⟩
    · exact fun h x _ _ => ⟨rfl, rfl⟩
  · rw [hstep, if_neg (hover b hin)]
    exact S.enterScope D hin
  · rw [hstep]
    exact S.appendEntry D hin hlast

/-- `SymbolTable::enter`. -/
theorem Scoped.enter (S : Scoped hash t live heads) {key : Text} {nameSpace : Nat}
    {category : Category} (hover : NotOverloaded t live key nameSpace category) :
    ∃ t' hs, t.enter hash key nameSpace category = some t' ∧
      (∀ x ∈ live, t'.key x = t.key x) ∧ t'.key t.fresh = key ∧
      Scoped hash t' (t.fresh :: live) hs := by
  have hkey : (t.newEntry key nameSpace category).key t.fresh = key := Function.update_self _ _ _
  have hover₁ : NotOverloaded (t.newEntry key nameSpace category) live
      ((t.newEntry key nameSpace category).key t.fresh)
      ((t.newEntry key nameSpace category).nameSpace t.fresh)
      ((t.newEntry key nameSpace category).category t.fresh) := by
    intro x hx
    rw [hkey, S.innermost_newEntry] at hx
    have hne := S.ne_fresh (innermost_mem hx)
    simp only [SymbolTable.newEntry, Function.update_self, Function.update_of_ne hne]
    exact hover x hx
  obtain ⟨t', hs, hstep, E, S'⟩ := (S.newEntry key nameSpace category).enterEntry
    (S.detached_newEntry key nameSpace category) hover₁
  refine ⟨t', hs, hstep, ?_, ?_, S'⟩
  · intro x hx
    rw [E.key, newEntry_key t key nameSpace category (S.ne_fresh hx)]
  · rw [E.key, hkey]

/-! ### Removing -/

/-- The scope chains when an innermost entry has gone. -/
lemma Scoped.filter_erase (S : Scoped hash t live heads) (hin : innermost t live (t.key p) = some p) :
    ∃ rest, (live.filter fun q => t.key q = t.key p) = p :: rest ∧
      ((live.erase p).filter fun q => t.key q = t.key p) = rest ∧ t.outer p = rest.head? ∧
      ∀ key, key ≠ t.key p →
        ((live.erase p).filter fun q => t.key q = key) = live.filter fun q => t.key q = key := by
  have hhead := innermost_eq_head? t live (t.key p)
  rw [hin] at hhead
  have hstack := S.stacked (t.key p)
  cases hf : live.filter (fun q => t.key q = t.key p) with
  | nil => simp [hf] at hhead
  | cons q rest =>
    rw [hf] at hhead hstack
    have hq : p = q := by simpa using hhead
    subst hq
    have hnd : (p :: rest).Nodup := by
      rw [← hf]
      exact S.nodup.filter _
    have hcomm : ∀ key, ((live.erase p).filter fun q => decide (t.key q = key)) =
        (live.filter fun q => decide (t.key q = key)).erase p := by
      intro key
      rw [S.nodup.erase_eq_filter, (S.nodup.filter _).erase_eq_filter, List.filter_filter,
        List.filter_filter]
      simp only [Bool.and_comm]
    refine ⟨rest, rfl, ?_, hstack.1, ?_⟩
    · rw [hcomm, hf, List.erase_cons_head]
    · intro key hkey
      rw [hcomm, List.erase_of_not_mem]
      intro hmem
      have hk : t.key p = key := by simpa using (List.mem_filter.mp hmem).2
      exact hkey hk.symm

/-- The common part of all ways to remove. -/
lemma Scoped.removed (S : Scoped hash t live heads) (hin : innermost t live (t.key p) = some p)
    (E : SameEntries t t') (hs : List EntryPtr) (houter : t'.outer = t.outer)
    (hhs : ∀ x, x ∈ hs ↔ (x ∈ heads (hash (t.key p)) ∧ x ≠ p) ∨ t.outer p = some x)
    (hhsnd : hs.Nodup) (htable : t'.table = Function.update t.table (hash (t.key p)) hs.head?)
    (hlinked : Linked t'.prev t'.next none hs none)
    (hframe : ∀ h x, h ≠ hash (t.key p) → x ∈ heads h →
      t'.prev x = t.prev x ∧ t'.next x = t.next x) :
    Scoped hash (t'.deleteEntry p) (live.erase p) (Function.update heads (hash (t.key p)) hs) := by
  obtain ⟨rest, hf, hrest, hp, hothers⟩ := S.filter_erase hin
  have hmem := S.mem_heads_innermost hin
  have hkeys : (t'.deleteEntry p).key = t.key := E.key
  have hstacked : ∀ key, Stacked (t'.deleteEntry p).outer
      ((live.erase p).filter fun q => t.key q = key) := by
    intro key
    have hdelete : (t'.deleteEntry p).outer = t.outer := houter
    rw [hdelete]
    by_cases hkey : key = t.key p
    · have hstack := S.stacked (t.key p)
      rw [hf] at hstack
      rw [hkey, hrest]
      exact hstack.2
    · rw [hothers key hkey]
      exact S.stacked key
  apply S.rebuild hkeys (S.nodup.erase p) _ _ _ _ hhsnd htable hlinked hframe hstacked
  · intro x hx
    have hxp : x ≠ p := fun h => (S.nodup.not_mem_erase) (h ▸ hx)
    have hlive := S.allocated x (List.mem_of_mem_erase hx)
    rw [← E.allocated] at hlive
    exact (Function.update_of_ne hxp _ _).trans hlive
  · intro x hx
    have hlt := S.lt_fresh x (List.mem_of_mem_erase hx)
    rw [← E.fresh] at hlt
    exact hlt
  · intro key hkey
    rw [innermost_eq_head?, hothers key hkey, innermost_eq_head?]
  · intro x
    rw [hhs, innermost_eq_head? t (live.erase p), hrest, hp]
    have hiff : x ∈ heads (hash (t.key p)) → (t.key x ≠ t.key p ↔ x ≠ p) := by
      intro hx
      constructor
      · rintro hk rfl
        exact hk rfl
      · exact fun hxp hk => hxp (S.eq_of_key_eq hx hmem hk)
    tauto

/-! #### An outer entry comes back -/

lemma removeScope_spec {c : EntryPtr} (hc : t.allocated c = true) (hne : c ≠ p)
    (hlinks : ∀ x, t.prev p = some x ∨ t.next p = some x →
      t.allocated x = true ∧ x ≠ p ∧ x ≠ c)
    (hprevnext : ∀ x, t.prev p = some x → t.next p ≠ some x)
    (hfirst : t.prev p = none → t.table (hash (t.key p)) = some p) :
    ∃ t', removeScope hash t p c = some t' ∧ SameEntries t t' ∧ Replaced t t' p c ∧
      t'.outer = t.outer ∧
      t'.table =
        if t.prev p = none then Function.update t.table (hash (t.key p)) (some c) else t.table := by
  cases hp : t.prev p with
  | none =>
    have htable := hfirst hp
    cases hn : t.next p with
    | none =>
      apply Exists.intro
      apply And.intro
      · simp only [removeScope, setPrev, setNext, setBucket, hc, hp, hn, htable, if_true,
          Option.bind_eq_bind, Option.bind_some, Function.update_of_ne hne.symm]
        rfl
      · refine ⟨⟨rfl, rfl, rfl⟩, ?_, rfl, by simp⟩
        constructor <;> grind
    | some r =>
      obtain ⟨hr, hrp, hrc⟩ := hlinks r (.inr hn)
      apply Exists.intro
      apply And.intro
      · simp only [removeScope, setPrev, setNext, setBucket, hc, hp, hn, hr, htable, if_true,
          Option.bind_eq_bind, Option.bind_some, Function.update_of_ne hne.symm,
          Function.update_of_ne hrp.symm]
        rfl
      · refine ⟨⟨rfl, rfl, rfl⟩, ?_, rfl, by simp⟩
        constructor <;> grind
  | some q =>
    obtain ⟨hq, hqp, hqc⟩ := hlinks q (.inl hp)
    cases hn : t.next p with
    | none =>
      apply Exists.intro
      apply And.intro
      · simp only [removeScope, setPrev, setNext, hc, hp, hn, hq, if_true,
          Option.bind_eq_bind, Option.bind_some, Function.update_of_ne hne.symm]
        rfl
      · refine ⟨⟨rfl, rfl, rfl⟩, ?_, rfl, by simp⟩
        constructor <;> grind
    | some r =>
      obtain ⟨hr, hrp, hrc⟩ := hlinks r (.inr hn)
      have hqr : q ≠ r := fun h => hprevnext q hp (h ▸ hn)
      apply Exists.intro
      apply And.intro
      · simp only [removeScope, setPrev, setNext, hc, hp, hn, hq, hr, if_true,
          Option.bind_eq_bind, Option.bind_some, Function.update_of_ne hne.symm,
          Function.update_of_ne hrp.symm]
        rfl
      · refine ⟨⟨rfl, rfl, rfl⟩, ?_, rfl, by simp⟩
        constructor <;> grind

lemma Scoped.first (S : Scoped hash t live heads) (hmem : p ∈ heads (hash (t.key p)))
    (hp : t.prev p = none) : t.table (hash (t.key p)) = some p := by
  obtain ⟨a, b, hab⟩ := List.append_of_mem hmem
  have hl := S.linked (hash (t.key p))
  rw [hab] at hl
  have hprev := (linked_node hl).2.1
  rw [hp, eq_comm, List.getLast?_eq_none_iff] at hprev
  rw [S.table, hab, hprev]
  rfl

/-- The links of other buckets lead elsewhere. -/
lemma Scoped.ne_of_bucket (S : Scoped hash t live heads) {h : Nat} {x y : EntryPtr}
    (hh : h ≠ hash key) (hx : x ∈ heads h) (hy : y ∈ heads (hash key)) : x ≠ y := by
  rintro rfl
  exact hh (((S.mem_heads _ _).mp hx).1.symm.trans ((S.mem_heads _ _).mp hy).1)

/-- What hangs on an innermost entry is live and in no bucket list. -/
lemma Scoped.outer_spec (S : Scoped hash t live heads) (hin : innermost t live (t.key p) = some p)
    {c : EntryPtr} (hc : t.outer p = some c) : c ∈ live ∧ c ≠ p ∧ ∀ h, c ∉ heads h := by
  obtain ⟨rest, hf, hrest, hp, -⟩ := S.filter_erase hin
  have hcr : c ∈ rest := List.mem_of_head? (hp ▸ hc)
  have hcf : c ∈ live.filter fun q => t.key q = t.key p := by
    rw [hf]
    exact List.mem_cons_of_mem p hcr
  have hnd : (p :: rest).Nodup := by
    rw [← hf]
    exact S.nodup.filter _
  have hcp : c ≠ p := by
    rintro rfl
    exact (List.nodup_cons.mp hnd).1 hcr
  refine ⟨List.mem_of_mem_filter hcf, hcp, ?_⟩
  intro h hch
  have hkey : t.key c = t.key p := by simpa using (List.mem_filter.mp hcf).2
  exact hcp (S.eq_of_key_eq hch (S.mem_heads_innermost hin) hkey)

lemma Scoped.removeScope (S : Scoped hash t live heads) (hin : innermost t live (t.key p) = some p)
    {c : EntryPtr} (hc : t.outer p = some c) :
    ∃ t' hs, t.removeScope hash p c = some t' ∧ SameEntries t t' ∧
      Scoped hash (t'.deleteEntry p) (live.erase p) hs := by
  have hmem := S.mem_heads_innermost hin
  obtain ⟨hclive, hcp, hcheads⟩ := S.outer_spec hin hc
  have hne : ∀ {h x}, x ∈ heads h → x ≠ c := by
    rintro h x hx rfl
    exact hcheads h hx
  obtain ⟨t', hstep, E, R, houter, htable⟩ := removeScope_spec (S.allocated c hclive) hcp
    (fun x hx => ⟨S.allocated x (S.live_of_mem_heads (S.mem_of_link hmem hx).1),
      (S.mem_of_link hmem hx).2, hne (S.mem_of_link hmem hx).1⟩)
    (fun x hx => S.prev_ne_next hmem hx) (S.first hmem)
  obtain ⟨a, b, hab⟩ := List.append_of_mem hmem
  have hnd := S.heads_nodup (hash (t.key p))
  have hl := S.linked (hash (t.key p))
  have hcab := hcheads (hash (t.key p))
  rw [hab] at hnd hl hcab
  refine ⟨t', _, hstep, E, S.removed hin E _ houter ?_ ?_ (S.table_replaced hab htable)
    (R.linked hl hnd hcab) ?_⟩
  · intro x
    have hp : p ∉ a ++ b := (List.nodup_cons.mp (List.nodup_middle.mp hnd)).1
    rw [hab, hc, Option.some.injEq]
    simp only [List.mem_append, List.mem_cons] at hp ⊢
    grind
  · rw [List.nodup_middle, List.nodup_cons]
    rw [List.nodup_middle, List.nodup_cons] at hnd
    refine ⟨?_, hnd.2⟩
    intro hcm
    apply hcab
    simp only [List.mem_append, List.mem_cons] at hcm ⊢
    tauto
  · intro h x hh hx
    constructor
    · apply R.prev_same x (S.ne_of_bucket hh hx hmem) (hne hx)
      exact fun hn => S.ne_of_bucket hh hx (S.mem_of_link hmem (.inr hn)).1 rfl
    · apply R.next_same x (S.ne_of_bucket hh hx hmem) (hne hx)
      exact fun hp => S.ne_of_bucket hh hx (S.mem_of_link hmem (.inl hp)).1 rfl

/-! #### The last entry of its key -/

lemma removeLast_spec (hlinks : ∀ x, t.prev p = some x ∨ t.next p = some x →
      t.allocated x = true ∧ x ≠ p)
    (hfirst : t.prev p = none → t.table (hash (t.key p)) = some p) :
    ∃ t', removeLast hash t p = some t' ∧ SameEntries t t' ∧ t'.outer = t.outer ∧
      (∀ x, t.prev p = some x → t'.next x = t.next p) ∧
      (∀ x, t.next p = some x → t'.prev x = t.prev p) ∧
      (∀ x, t.next p ≠ some x → t'.prev x = t.prev x) ∧
      (∀ x, t.prev p ≠ some x → t'.next x = t.next x) ∧
      t'.table =
        if t.prev p = none then Function.update t.table (hash (t.key p)) (t.next p) else t.table := by
  cases hp : t.prev p with
  | none =>
    have htable := hfirst hp
    cases hn : t.next p with
    | none =>
      apply Exists.intro
      apply And.intro
      · simp only [removeLast, setBucket, hp, hn, htable, if_true]
        rfl
      · exact ⟨⟨rfl, rfl, rfl⟩, rfl, by grind, by grind, by grind, by grind, by simp⟩
    | some r =>
      obtain ⟨hr, hrp⟩ := hlinks r (.inr hn)
      apply Exists.intro
      apply And.intro
      · simp only [removeLast, setBucket, setPrev, hp, hn, hr, htable, if_true]
        rfl
      · exact ⟨⟨rfl, rfl, rfl⟩, rfl, by grind, by grind, by grind, by grind, by simp⟩
  | some q =>
    obtain ⟨hq, hqp⟩ := hlinks q (.inl hp)
    cases hn : t.next p with
    | none =>
      apply Exists.intro
      apply And.intro
      · simp only [removeLast, setNext, hp, hn, hq, if_true, Option.bind_eq_bind, Option.bind_some,
          Function.update_of_ne hqp.symm]
        rfl
      · exact ⟨⟨rfl, rfl, rfl⟩, rfl, by grind, by grind, by grind, by grind, by simp⟩
    | some r =>
      obtain ⟨hr, hrp⟩ := hlinks r (.inr hn)
      apply Exists.intro
      apply And.intro
      · simp only [removeLast, setNext, setPrev, hp, hn, hq, hr, if_true, Option.bind_eq_bind,
          Option.bind_some, Function.update_of_ne hqp.symm]
        rfl
      · exact ⟨⟨rfl, rfl, rfl⟩, rfl, by grind, by grind, by grind, by grind, by simp⟩

lemma Scoped.removeLast (S : Scoped hash t live heads) (hin : innermost t live (t.key p) = some p)
    (hc : t.outer p = none) :
    ∃ t' hs, t.removeLast hash p = some t' ∧ SameEntries t t' ∧
      Scoped hash (t'.deleteEntry p) (live.erase p) hs := by
  have hmem := S.mem_heads_innermost hin
  obtain ⟨t', hstep, E, houter, hlast, hfirst, hprev, hnext, htable⟩ :=
    removeLast_spec
      (fun x hx => ⟨S.allocated x (S.live_of_mem_heads (S.mem_of_link hmem hx).1),
        (S.mem_of_link hmem hx).2⟩) (S.first hmem)
  obtain ⟨a, b, hab⟩ := List.append_of_mem hmem
  have hnd := S.heads_nodup (hash (t.key p))
  have hl := S.linked (hash (t.key p))
  rw [hab] at hnd hl
  have hrest := List.nodup_cons.mp (List.nodup_middle.mp hnd)
  refine ⟨t', _, hstep, E, S.removed hin E (a ++ b) houter ?_ hrest.2 ?_ ?_ ?_⟩
  · intro x
    have hp := hrest.1
    rw [hab, hc]
    simp only [List.mem_append, List.mem_cons] at hp ⊢
    grind
  · obtain ⟨-, hpa, hpb, -⟩ := linked_node hl
    rw [htable, hpa, hpb]
    cases a with
    | nil => simp
    | cons x a =>
      have hhead : t.table (hash (t.key p)) = some x := by
        rw [S.table, hab]
        rfl
      rw [if_neg (by simp), List.cons_append, List.head?_cons, ← hhead, Function.update_eq_self]
  · exact linked_remove hl hnd hlast hfirst (fun x _ => hprev x) fun x _ => hnext x
  · intro h x hh hx
    constructor
    · exact hprev x fun hn => S.ne_of_bucket hh hx (S.mem_of_link hmem (.inr hn)).1 rfl
    · exact hnext x fun hp => S.ne_of_bucket hh hx (S.mem_of_link hmem (.inl hp)).1 rfl

/-- `SymbolTable::remove` of the innermost entry of a key. -/
theorem Scoped.remove (S : Scoped hash t live heads) (hin : innermost t live (t.key p) = some p) :
    ∃ t' hs, t.remove hash p = some t' ∧ t'.key = t.key ∧ Scoped hash t' (live.erase p) hs := by
  have hp := S.allocated p (innermost_mem hin)
  cases hc : t.outer p with
  | some c =>
    obtain ⟨t', hs, hstep, E, S'⟩ := S.removeScope hin hc
    exact ⟨t'.deleteEntry p, hs, by simp [SymbolTable.remove, hp, hc, hstep], E.key, S'⟩
  | none =>
    obtain ⟨t', hs, hstep, E, S'⟩ := S.removeLast hin hc
    exact ⟨t'.deleteEntry p, hs, by simp [SymbolTable.remove, hp, hc, hstep], E.key, S'⟩

/-! ### Runs -/

/-- The tables, with their live entries, that `enter` and `remove` can lead to: no entry is an
overload of the innermost one of its key, and of each key the entry that came last goes first. -/
inductive Run (hash : Text → Nat) : SymbolTable → List EntryPtr → Prop
  | init : Run hash empty []
  | enter {t t' : SymbolTable} {live : List EntryPtr} {key : Text} {nameSpace : Nat}
      {category : Category} (run : Run hash t live)
      (once : NotOverloaded t live key nameSpace category)
      (step : t.enter hash key nameSpace category = some t') : Run hash t' (t.fresh :: live)
  | remove {t t' : SymbolTable} {live : List EntryPtr} {p : EntryPtr} (run : Run hash t live)
      (last : innermost t live (t.key p) = some p)
      (step : t.remove hash p = some t') : Run hash t' (live.erase p)

lemma Run.scoped (R : Run hash t live) : ∃ heads, Scoped hash t live heads := by
  induction R with
  | init => exact ⟨_, scoped_empty hash⟩
  | enter run once step ih =>
    obtain ⟨heads, S⟩ := ih
    obtain ⟨t', hs, hstep, -, -, S'⟩ := S.enter once
    rw [hstep, Option.some.injEq] at step
    exact ⟨hs, step ▸ S'⟩
  | remove run last step ih =>
    obtain ⟨heads, S⟩ := ih
    obtain ⟨t', hs, hstep, -, S'⟩ := S.remove last
    rw [hstep, Option.some.injEq] at step
    exact ⟨hs, step ▸ S'⟩

/-- A bucket is a doubly linked list, without a node twice. -/
def Consistent (t : SymbolTable) (h : Nat) : Prop :=
  ∃ l : List EntryPtr, l.Nodup ∧ t.table h = l.head? ∧ Linked t.prev t.next none l none

lemma innermost_congr (hkey : ∀ x ∈ live, t'.key x = t.key x) (key : Text) :
    innermost t' live key = innermost t live key := by
  rw [innermost_eq_head?, innermost_eq_head?]
  congr 1
  apply List.filter_congr
  intro x hx
  rw [hkey x hx]

lemma Scoped.innermost_erase (S : Scoped hash t live heads)
    (hin : innermost t live (t.key p) = some p) (hkey : key ≠ t.key p) :
    innermost t (live.erase p) key = innermost t live key := by
  obtain ⟨-, -, -, -, hothers⟩ := S.filter_erase hin
  rw [innermost_eq_head?, hothers key hkey, innermost_eq_head?]

/-- In every run the table finds the last live entry of each key, each bucket is a proper list, and
the next call succeeds and leaves the other keys alone. -/
theorem symbolTable_refines_scopes (prime : Nat) (t : SymbolTable) (live : List EntryPtr)
    (R : Run (SymbolTable.hash prime) t live) :
    (∀ key, t.find (SymbolTable.hash prime) key .c_unspec = some (innermost t live key)) ∧
      (∀ h, Consistent t h) ∧
      (∀ key nameSpace category, NotOverloaded t live key nameSpace category →
        ∃ t', t.enter (SymbolTable.hash prime) key nameSpace category = some t' ∧
          t'.find (SymbolTable.hash prime) key .c_unspec = some (some t.fresh) ∧
          ∀ key', key' ≠ key →
            t'.find (SymbolTable.hash prime) key' .c_unspec =
              t.find (SymbolTable.hash prime) key' .c_unspec) ∧
      ∀ p, innermost t live (t.key p) = some p →
        ∃ t', t.remove (SymbolTable.hash prime) p = some t' ∧
          ∀ key', key' ≠ t.key p →
            t'.find (SymbolTable.hash prime) key' .c_unspec =
              t.find (SymbolTable.hash prime) key' .c_unspec := by
  obtain ⟨heads, S⟩ := R.scoped
  refine ⟨S.find_eq, fun h => ⟨heads h, S.heads_nodup h, S.table h, S.linked h⟩, ?_, ?_⟩
  · intro key nameSpace category once
    obtain ⟨t', hs, hstep, hkeys, hkey, S'⟩ := S.enter once
    refine ⟨t', hstep, ?_, ?_⟩
    · rw [S'.find_eq, innermost_cons hkey, if_pos rfl]
    · intro key' hne
      rw [S'.find_eq, innermost_cons hkey, if_neg hne, innermost_congr hkeys, S.find_eq]
  · intro p last
    obtain ⟨t', hs, hstep, hkey, S'⟩ := S.remove last
    refine ⟨t', hstep, ?_⟩
    intro key' hne
    rw [S'.find_eq, innermost_congr (t := t) (fun x _ => by rw [hkey]), S.innermost_erase last hne,
      S.find_eq]

/-- A variable `a` of one namespace, and one of another namespace inside. -/
def outerA : SymbolTable := (empty.enter (SymbolTable.hash 31) [97] 0 .c_variable).getD empty

def innerA : SymbolTable := (outerA.enter (SymbolTable.hash 31) [97] 1 .c_variable).getD empty

theorem symbolTable_finds_inner :
    Run (SymbolTable.hash 31) innerA [1, 0] ∧
      innerA.find (SymbolTable.hash 31) [97] .c_unspec = some (some 1) := by
  have h₁ : Run (SymbolTable.hash 31) outerA [0] := Run.enter Run.init (by intro x hx; cases hx) rfl
  have hstep : outerA.enter (SymbolTable.hash 31) [97] 1 .c_variable = some innerA := rfl
  have h₂ : Run (SymbolTable.hash 31) innerA [1, 0] := by
    apply Run.enter h₁ _ hstep
    intro x hx
    have hx0 : x = 0 := by simpa using innermost_mem hx
    subst hx0
    decide
  exact ⟨h₂, ((symbolTable_refines_scopes 31 innerA [1, 0] h₂).1 [97]).trans rfl⟩

end YastCore.SymbolTable
