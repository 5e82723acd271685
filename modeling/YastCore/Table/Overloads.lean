import YastCore.Table.Scopes

/-!
# Removing any entry of the symbol table

The scopes of a key with the overloaded entries of each, after any calls of `enter` and `remove`. `remove` unlinks
an entry from its scopes only where the entry is the innermost one of its key, or right behind the first entry of
its bucket, and never from its overloaded entries.
-/

namespace YastCore.SymbolTable

open LinkedList

section

variable (hash : Text → Nat)

/-- The entries that a key leads to: the scopes, innermost first, each with its overloaded entries. -/
def scopes (t : SymbolTable) (key : Text) : Option (List (List EntryPtr)) :=
  (t.find hash key .c_unspec).map fun first =>
    (walk t.outer t.fresh first).map fun p => walk t.overloadedNext t.fresh (some p)

/-- The same without one of the entries. -/
def without (p : EntryPtr) (l : List (List EntryPtr)) : List (List EntryPtr) :=
  (l.map fun g => g.filter (· ≠ p)).filter fun g => !g.isEmpty

/-- `remove` comes back, and the entry alone is not found any more. -/
def RemovesAlone (t : SymbolTable) (p : EntryPtr) : Prop :=
  ∃ t', t.remove hash p = some t' ∧
    ∀ key, ∃ l, t.scopes hash key = some l ∧ t'.scopes hash key = some (without p l)

/-- The entry has no overloaded entries, and it is found by its key or hangs on the first entry of its bucket. -/
def Removable (t : SymbolTable) (p : EntryPtr) : Prop :=
  t.overloadedNext p = none ∧
    (t.find hash (t.key p) .c_unspec = some (some p) ∨
      ∃ q, t.table (hash (t.key p)) = some q ∧ t.outer q = some p)

/-- The tables that calls of `enter` and of `remove` lead to, with the entries that are live; `allowed` tells which
entries are removed. -/
inductive Steps (allowed : SymbolTable → EntryPtr → Prop) : SymbolTable → List EntryPtr → Prop
  | init : Steps allowed empty []
  | enter {t t' : SymbolTable} {entries : List EntryPtr} {key : Text} {nameSpace : Nat} {category : Category}
      (run : Steps allowed t entries) (step : t.enter hash key nameSpace category = some t') :
      Steps allowed t' (t.fresh :: entries)
  | remove {t t' : SymbolTable} {entries : List EntryPtr} {p : EntryPtr} (run : Steps allowed t entries)
      (live : p ∈ entries) (allow : allowed t p) (step : t.remove hash p = some t') :
      Steps allowed t' (entries.erase p)

end

/-- The first entries of the scopes, latest first, and the overloaded entries of each of them. -/
structure Grouped (hash : Text → Nat) (t : SymbolTable) (live : List EntryPtr) (heads : Nat → List EntryPtr)
    (overloads : EntryPtr → List EntryPtr) : Prop where
  scope : Scoped hash t live heads
  shadowed : ∀ p ∈ live, innermost t live (t.key p) ≠ some p → t.prev p = none ∧ t.next p = none
  chained : ∀ p ∈ live, Stacked t.overloadedNext (p :: overloads p)
  nodup : ∀ p ∈ live, (overloads p).Nodup
  disjoint : ∀ p ∈ live, ∀ p' ∈ live, ∀ q ∈ overloads p, q ∈ overloads p' → p = p'
  not_live : ∀ p ∈ live, ∀ q ∈ overloads p, q ∉ live
  allocated : ∀ p ∈ live, ∀ q ∈ overloads p, t.allocated q = true
  lt_fresh : ∀ p ∈ live, ∀ q ∈ overloads p, q < t.fresh
  key : ∀ p ∈ live, ∀ q ∈ overloads p, t.key q = t.key p
  unlinked : ∀ p ∈ live, ∀ q ∈ overloads p, t.prev q = none ∧ t.next q = none ∧ t.outer q = none

/-- The entries of a run are those of the groups. -/
def Members (live : List EntryPtr) (overloads : EntryPtr → List EntryPtr) (p : EntryPtr) : Prop :=
  ∃ x ∈ live, p ∈ x :: overloads x

variable {hash : Text → Nat} {t t' : SymbolTable} {live : List EntryPtr} {heads : Nat → List EntryPtr}
  {overloads : EntryPtr → List EntryPtr} {key : Text} {p q entry : EntryPtr}

lemma grouped_empty (hash : Text → Nat) : Grouped hash empty [] (fun _ => []) fun _ => [] where
  scope := scoped_empty hash
  shadowed := by simp
  chained := by simp
  nodup := by simp
  disjoint := by simp
  not_live := by simp
  allocated := by simp
  lt_fresh := by simp
  key := by simp
  unlinked := by simp

/-! ### Finding -/

lemma length_le_of_lt_fresh {l : List EntryPtr} {n : ℕ} (hnd : l.Nodup) (hlt : ∀ x ∈ l, x < n) : l.length ≤ n := by
  have hsub : l ⊆ List.range n := fun x hx => List.mem_range.mpr (hlt x hx)
  have hle := (List.subperm_of_subset hnd hsub).length_le
  rwa [List.length_range] at hle

namespace Grouped

lemma nodup_group (G : Grouped hash t live heads overloads) (hp : p ∈ live) : (p :: overloads p).Nodup :=
  List.nodup_cons.mpr ⟨fun hmem => G.not_live p hp p hmem hp, G.nodup p hp⟩

lemma allocated_group (G : Grouped hash t live heads overloads) (hp : p ∈ live) (hq : q ∈ p :: overloads p) :
    t.allocated q = true := by
  rcases List.mem_cons.mp hq with rfl | hq
  · exact G.scope.allocated q hp
  · exact G.allocated p hp q hq

lemma lt_fresh_group (G : Grouped hash t live heads overloads) (hp : p ∈ live) (hq : q ∈ p :: overloads p) :
    q < t.fresh := by
  rcases List.mem_cons.mp hq with rfl | hq
  · exact G.scope.lt_fresh q hp
  · exact G.lt_fresh p hp q hq

lemma key_group (G : Grouped hash t live heads overloads) (hp : p ∈ live) (hq : q ∈ p :: overloads p) :
    t.key q = t.key p := by
  rcases List.mem_cons.mp hq with rfl | hq
  · rfl
  · exact G.key p hp q hq

/-- The groups have no entry in common. -/
lemma disjoint_group (G : Grouped hash t live heads overloads) {p' : EntryPtr} (hp : p ∈ live) (hp' : p' ∈ live)
    (hq : q ∈ p :: overloads p) (hq' : q ∈ p' :: overloads p') : p = p' := by
  rcases List.mem_cons.mp hq with rfl | hq
  · rcases List.mem_cons.mp hq' with heq | hq'
    · exact heq
    · exact absurd hp (G.not_live p' hp' q hq')
  · rcases List.mem_cons.mp hq' with rfl | hq'
    · exact absurd hp' (G.not_live p hp q hq)
    · exact G.disjoint p hp p' hp' q hq hq'

lemma length_group_le (G : Grouped hash t live heads overloads) (hp : p ∈ live) :
    (p :: overloads p).length ≤ t.fresh :=
  length_le_of_lt_fresh (G.nodup_group hp) fun _ hx => G.lt_fresh_group hp hx

lemma walk_over (G : Grouped hash t live heads overloads) (hp : p ∈ live) :
    walk t.overloadedNext t.fresh (some p) = p :: overloads p :=
  walk_stacked (l := p :: overloads p) (G.chained p hp) (G.length_group_le hp)

/-- The scopes of a key are the groups whose first entries have it. -/
lemma scopes_eq (G : Grouped hash t live heads overloads) (key : Text) :
    t.scopes hash key = some ((live.filter fun p => t.key p = key).map fun p => p :: overloads p) := by
  have hwalk : walk t.outer t.fresh (innermost t live key) = live.filter fun p => t.key p = key := by
    rw [innermost_eq_head?]
    refine walk_stacked (G.scope.stacked key) (length_le_of_lt_fresh (G.scope.nodup.filter _) ?_)
    exact fun x hx => G.scope.lt_fresh x (List.mem_of_mem_filter hx)
  rw [scopes, G.scope.find_eq, Option.map_some, hwalk, Option.some.injEq]
  refine List.map_congr_left fun p hp => ?_
  exact G.walk_over (List.mem_of_mem_filter hp)

lemma overloadedNext_eq_none_iff (G : Grouped hash t live heads overloads) (hp : p ∈ live) :
    t.overloadedNext p = none ↔ overloads p = [] := by
  rw [(G.chained p hp).1, List.head?_eq_none_iff]

/-- The first entry of the bucket of a key that is there. -/
lemma exists_first (G : Grouped hash t live heads overloads) (hp : p ∈ live) :
    ∃ s, t.table (hash (t.key p)) = some s ∧ s ∈ live ∧ innermost t live (t.key s) = some s := by
  have hsome : ∃ b, innermost t live (t.key p) = some b := by
    cases hin : innermost t live (t.key p) with
    | none => exact absurd (List.find?_eq_none.mp hin p hp) (by simp)
    | some b => exact ⟨b, rfl⟩
  obtain ⟨b, hb⟩ := hsome
  have hmem := G.scope.mem_heads_innermost hb
  cases hheads : heads (hash (t.key p)) with
  | nil => simp [hheads] at hmem
  | cons s l =>
    have hs : s ∈ heads (hash (t.key p)) := by simp [hheads]
    refine ⟨s, ?_, G.scope.live_of_mem_heads hs, ((G.scope.mem_heads _ s).mp hs).2⟩
    rw [G.scope.table, hheads]
    rfl

/-- What an entry hangs on is a scope of the same key. -/
lemma outer_live (G : Grouped hash t live heads overloads) (hq : q ∈ live) (hout : t.outer q = some p) :
    p ∈ live ∧ t.key p = t.key q ∧ p ≠ q ∧ ∃ a b, (live.filter fun x => t.key x = t.key q) = a ++ q :: p :: b := by
  have hqf : q ∈ live.filter fun x => t.key x = t.key q := List.mem_filter.mpr ⟨hq, by simp⟩
  have hnd := G.scope.nodup.filter fun x => decide (t.key x = t.key q)
  obtain ⟨a, b, hab⟩ := List.append_of_mem hqf
  have hb : b.head? = some p := by
    have hstack := G.scope.stacked (t.key q)
    rw [hab] at hstack
    rw [← hout]
    clear hab hqf
    induction a with
    | nil => exact hstack.1.symm
    | cons x a ih => exact ih hstack.2
  obtain ⟨b', rfl⟩ := List.head?_eq_some_iff.mp hb
  have hpf : p ∈ live.filter fun x => t.key x = t.key q := by
    rw [hab]
    simp
  rw [hab] at hnd
  refine ⟨List.mem_of_mem_filter hpf, by simpa using (List.mem_filter.mp hpf).2, ?_, a, b', hab⟩
  rintro rfl
  exact (List.nodup_cons.mp (List.nodup_append.mp hnd).2.1).1 List.mem_cons_self

end Grouped

/-! ### Entering -/

lemma setPrev_eq {v : Option EntryPtr} (h : t.setPrev p v = some t') :
    t' = { t with prev := Function.update t.prev p v } := by
  unfold setPrev at h
  split at h <;> cases h
  rfl

lemma setNext_eq {v : Option EntryPtr} (h : t.setNext p v = some t') :
    t' = { t with next := Function.update t.next p v } := by
  unfold setNext at h
  split at h <;> cases h
  rfl

lemma setOuter_eq {v : Option EntryPtr} (h : t.setOuter p v = some t') :
    t' = { t with outer := Function.update t.outer p v } := by
  unfold setOuter at h
  split at h <;> cases h
  rfl

lemma setPrev_overloadedNext {v : Option EntryPtr} (h : t.setPrev p v = some t') :
    t'.overloadedNext = t.overloadedNext := by
  rw [setPrev_eq h]

lemma setNext_overloadedNext {v : Option EntryPtr} (h : t.setNext p v = some t') :
    t'.overloadedNext = t.overloadedNext := by
  rw [setNext_eq h]

lemma setOuter_overloadedNext {v : Option EntryPtr} (h : t.setOuter p v = some t') :
    t'.overloadedNext = t.overloadedNext := by
  rw [setOuter_eq h]

lemma clearLinks (h : ((t.setPrev p none).bind fun t => t.setNext p none) = some t') :
    t'.overloadedNext = t.overloadedNext ∧ t'.prev p = none ∧ t'.next p = none := by
  obtain ⟨u, hu, hlast⟩ := Option.bind_eq_some_iff.mp h
  obtain rfl := setPrev_eq hu
  obtain rfl := setNext_eq hlast
  exact ⟨rfl, Function.update_self _ _ _, Function.update_self _ _ _⟩

/-- The overloaded entries stay, and the entry that was in the bucket list has no links there any more. -/
lemma enterScope_bucket {h : Nat} {bucket : EntryPtr} (hstep : t.enterScope h entry bucket = some t') :
    t'.overloadedNext = t.overloadedNext ∧ t'.prev bucket = none ∧ t'.next bucket = none := by
  have hkeep : ∀ {u : SymbolTable}, u.overloadedNext = t.overloadedNext →
      ((u.setPrev bucket none).bind fun t => t.setNext bucket none) = some t' →
      t'.overloadedNext = t.overloadedNext ∧ t'.prev bucket = none ∧ t'.next bucket = none := by
    intro u hu hlast
    obtain ⟨hnext, hlinks⟩ := clearLinks hlast
    exact ⟨hnext.trans hu, hlinks⟩
  unfold SymbolTable.enterScope at hstep
  obtain ⟨t₁, h₁, hstep⟩ := Option.bind_eq_some_iff.mp hstep
  have h₁ := setOuter_overloadedNext h₁
  dsimp only at hstep
  split at hstep
  · obtain ⟨u, hu, hstep⟩ := Option.bind_eq_some_iff.mp hstep
    obtain ⟨t₂, h₂, hstep⟩ := Option.bind_eq_some_iff.mp hstep
    have h₂ := (setNext_overloadedNext h₂).trans ((setPrev_overloadedNext hu).trans h₁)
    split at hstep
    · obtain ⟨v, hv, hstep⟩ := Option.bind_eq_some_iff.mp hstep
      obtain ⟨t₃, h₃, hstep⟩ := Option.bind_eq_some_iff.mp hstep
      exact hkeep ((setPrev_overloadedNext h₃).trans ((setNext_overloadedNext hv).trans h₂)) hstep
    · obtain ⟨t₃, h₃, hstep⟩ := Option.bind_eq_some_iff.mp hstep
      exact hkeep ((setNext_overloadedNext h₃).trans h₂) hstep
  · obtain ⟨t₂, h₂, hstep⟩ := Option.bind_eq_some_iff.mp hstep
    have h₂ : t₂.overloadedNext = t.overloadedNext := (setPrev_overloadedNext h₂).trans h₁
    split at hstep
    · obtain ⟨v, hv, hstep⟩ := Option.bind_eq_some_iff.mp hstep
      obtain ⟨t₃, h₃, hstep⟩ := Option.bind_eq_some_iff.mp hstep
      exact hkeep ((setPrev_overloadedNext h₃).trans ((setNext_overloadedNext hv).trans h₂)) hstep
    · obtain ⟨t₃, h₃, hstep⟩ := Option.bind_eq_some_iff.mp hstep
      exact hkeep ((setNext_overloadedNext h₃).trans h₂) hstep

/-- What a new scope leaves as it is. -/
structure EnterFrame (t t' : SymbolTable) (live : List EntryPtr) (heads : Nat → List EntryPtr)
    (entry : EntryPtr) : Prop where
  entries : SameEntries t t'
  overloadedNext : t'.overloadedNext = t.overloadedNext
  links : ∀ x, x ≠ entry → (∀ h, x ∉ heads h) → t'.prev x = t.prev x ∧ t'.next x = t.next x
  outer : ∀ x, x ≠ entry → t'.outer x = t.outer x
  bucket : ∀ b, innermost t live (t.key entry) = some b → t'.prev b = none ∧ t'.next b = none

lemma Scoped.enterFrame (S : Scoped hash t live heads) (D : Detached t live entry)
    (hover : NotOverloaded t live (t.key entry) (t.nameSpace entry) (t.category entry))
    (hstep : t.enterEntry hash entry = some t') : EnterFrame t t' live heads entry := by
  rcases S.enterEntry_cases entry with ⟨hheads, hin, h⟩ | ⟨b, hin, h⟩ | ⟨last, hin, hlast, h⟩
  · rw [h, Option.some.injEq] at hstep
    subst hstep
    exact ⟨⟨rfl, rfl, rfl⟩, rfl, fun _ _ _ => ⟨rfl, rfl⟩, fun _ _ => rfl, fun b hb => by simp [hin] at hb⟩
  · rw [h, if_neg (hover b hin)] at hstep
    have hmem := S.mem_heads_innermost hin
    have hlive : ∀ {h x}, x ∈ heads h → t.allocated x = true ∧ x ≠ entry := by
      intro h x hx
      have hxl := S.live_of_mem_heads hx
      refine ⟨S.allocated x hxl, ?_⟩
      rintro rfl
      exact D.not_live hxl
    obtain ⟨u, hu, E, R, houter, -⟩ := enterScope_spec (h := hash (t.key entry)) D.allocated
      (hlive hmem).1 (hlive hmem).2.symm
      (fun x hx => ⟨(hlive (S.mem_of_link hmem hx).1).1, (S.mem_of_link hmem hx).2,
        (hlive (S.mem_of_link hmem hx).1).2⟩)
      (fun x hx => S.prev_ne_next hmem hx)
    rw [hu, Option.some.injEq] at hstep
    subst hstep
    obtain ⟨hnext, hprevb, hnextb⟩ := enterScope_bucket hu
    refine ⟨E, hnext, fun x hx hnot => ⟨?_, ?_⟩, fun x hx => ?_, fun b' hb' => ?_⟩
    · refine R.prev_same x (fun heq => hnot _ (heq ▸ hmem)) hx fun hlink => ?_
      exact hnot _ (S.mem_of_link hmem (.inr hlink)).1
    · refine R.next_same x (fun heq => hnot _ (heq ▸ hmem)) hx fun hlink => ?_
      exact hnot _ (S.mem_of_link hmem (.inl hlink)).1
    · rw [houter, Function.update_of_ne hx]
    · rw [hin, Option.some.injEq] at hb'
      subst hb'
      exact ⟨hprevb, hnextb⟩
  · have halloc := S.allocated last (S.live_of_mem_heads (List.mem_of_getLast? hlast))
    rw [h] at hstep
    simp only [SymbolTable.appendEntry, setNext, setPrev, halloc, D.allocated, if_true, Option.bind_eq_bind,
      Option.bind_some, Option.some.injEq] at hstep
    subst hstep
    refine ⟨⟨rfl, rfl, rfl⟩, rfl, fun x hx hnot => ⟨?_, ?_⟩, fun _ _ => rfl, fun b hb => by simp [hin] at hb⟩
    · exact Function.update_of_ne hx _ _
    · refine Function.update_of_ne ?_ _ _
      rintro rfl
      exact hnot _ (List.mem_of_getLast? hlast)

namespace Grouped

lemma ne_fresh (G : Grouped hash t live heads overloads) (hp : p ∈ live) (hq : q ∈ p :: overloads p) : q ≠ t.fresh :=
  Nat.ne_of_lt (G.lt_fresh_group hp hq)

lemma newEntry (G : Grouped hash t live heads overloads) (key : Text) (n : Nat) (c : Category) :
    Grouped hash (t.newEntry key n c) live heads overloads := by
  have hover : ∀ {p q}, p ∈ live → q ∈ overloads p → q ≠ t.fresh := fun hp hq =>
    G.ne_fresh hp (List.mem_cons_of_mem _ hq)
  refine ⟨G.scope.newEntry key n c, ?_, ?_, G.nodup, G.disjoint, G.not_live, ?_, ?_, ?_, ?_⟩
  · intro p hp hin
    have hne := G.scope.ne_fresh hp
    rw [newEntry_key t key n c hne, G.scope.innermost_newEntry] at hin
    obtain ⟨hprev, hnext⟩ := G.shadowed p hp hin
    exact ⟨(Function.update_of_ne hne _ _).trans hprev, (Function.update_of_ne hne _ _).trans hnext⟩
  · intro p hp
    refine stacked_congr (G.chained p hp) fun x hx => ?_
    exact Function.update_of_ne (G.ne_fresh hp hx) _ _
  · intro p hp q hq
    exact (Function.update_of_ne (hover hp hq) _ _).trans (G.allocated p hp q hq)
  · intro p hp q hq
    exact Nat.lt_succ_of_lt (G.lt_fresh p hp q hq)
  · intro p hp q hq
    rw [newEntry_key t key n c (hover hp hq), newEntry_key t key n c (G.scope.ne_fresh hp), G.key p hp q hq]
  · intro p hp q hq
    obtain ⟨hprev, hnext, houter⟩ := G.unlinked p hp q hq
    have hne := hover hp hq
    exact ⟨(Function.update_of_ne hne _ _).trans hprev, (Function.update_of_ne hne _ _).trans hnext,
      (Function.update_of_ne hne _ _).trans houter⟩

/-- A new scope. -/
lemma enterScope (G : Grouped hash t live heads overloads) (D : Detached t live entry)
    (hnew : ∀ p ∈ live, entry ∉ overloads p) (hnext : t.overloadedNext entry = none)
    (hover : NotOverloaded t live (t.key entry) (t.nameSpace entry) (t.category entry)) :
    ∃ t' hs, t.enterEntry hash entry = some t' ∧
      Grouped hash t' (entry :: live) hs (Function.update overloads entry []) := by
  obtain ⟨t', hs, hstep, E, S'⟩ := G.scope.enterEntry D hover
  have F := G.scope.enterFrame D hover hstep
  have hne : ∀ {p}, p ∈ live → p ≠ entry := by
    rintro p hp rfl
    exact D.not_live hp
  have hcase : ∀ {p q}, p ∈ entry :: live → q ∈ Function.update overloads entry [] p → p ∈ live ∧ q ∈ overloads p := by
    intro p q hp hq
    by_cases hpe : p = entry
    · rw [hpe, Function.update_self] at hq
      cases hq
    · rw [Function.update_of_ne hpe] at hq
      exact ⟨(List.mem_cons.mp hp).resolve_left hpe, hq⟩
  have hqne : ∀ {p q}, p ∈ live → q ∈ overloads p → q ≠ entry := by
    rintro p q hp hq rfl
    exact hnew p hp hq
  refine ⟨t', hs, hstep, ⟨S', ?_, ?_, ?_, ?_, ?_, ?_, ?_, ?_, ?_⟩⟩
  · intro p hp hin
    rw [E.key] at hin
    have hkeys : innermost t' (entry :: live) (t.key p) = innermost t (entry :: live) (t.key p) :=
      innermost_congr (fun x _ => by rw [E.key]) _
    rw [hkeys, innermost_cons rfl] at hin
    rcases List.mem_cons.mp hp with rfl | hp
    · exact absurd (if_pos rfl) hin
    · by_cases hold : innermost t live (t.key p) = some p
      · split at hin
        next hkey =>
          rw [hkey] at hold
          exact F.bucket p hold
        next => exact absurd hold hin
      · obtain ⟨hprev, hnext⟩ := G.shadowed p hp hold
        obtain ⟨hprev', hnext'⟩ := F.links p (hne hp) fun h hmem => hold ((G.scope.mem_heads h p).mp hmem).2
        exact ⟨hprev'.trans hprev, hnext'.trans hnext⟩
  · intro p hp
    rw [F.overloadedNext]
    rcases List.mem_cons.mp hp with rfl | hp
    · rw [Function.update_self]
      exact ⟨hnext, trivial⟩
    · rw [Function.update_of_ne (hne hp)]
      exact G.chained p hp
  · intro p hp
    rcases List.mem_cons.mp hp with rfl | hp
    · rw [Function.update_self]
      exact List.nodup_nil
    · rw [Function.update_of_ne (hne hp)]
      exact G.nodup p hp
  · intro p hp p' hp' q hq hq'
    obtain ⟨hp, hq⟩ := hcase hp hq
    obtain ⟨hp', hq'⟩ := hcase hp' hq'
    exact G.disjoint p hp p' hp' q hq hq'
  · intro p hp q hq hmem
    obtain ⟨hp, hq⟩ := hcase hp hq
    exact G.not_live p hp q hq ((List.mem_cons.mp hmem).resolve_left (hqne hp hq))
  · intro p hp q hq
    obtain ⟨hp, hq⟩ := hcase hp hq
    rw [E.allocated]
    exact G.allocated p hp q hq
  · intro p hp q hq
    obtain ⟨hp, hq⟩ := hcase hp hq
    rw [E.fresh]
    exact G.lt_fresh p hp q hq
  · intro p hp q hq
    obtain ⟨hp, hq⟩ := hcase hp hq
    rw [E.key]
    exact G.key p hp q hq
  · intro p hp q hq
    obtain ⟨hp, hq⟩ := hcase hp hq
    obtain ⟨hprev, hnext, houter⟩ := G.unlinked p hp q hq
    obtain ⟨hprev', hnext'⟩ := F.links q (hqne hp hq) fun h hmem =>
      G.not_live p hp q hq (G.scope.live_of_mem_heads hmem)
    exact ⟨hprev'.trans hprev, hnext'.trans hnext, (F.outer q (hqne hp hq)).trans houter⟩

end Grouped

/-- The loop goes to the last of the overloaded entries. -/
lemma enterOverloaded_stacked (entry : EntryPtr) {l : List EntryPtr} {fuel : ℕ}
    (hl : Stacked t.overloadedNext (p :: l)) (halloc : ∀ x ∈ p :: l, t.allocated x = true)
    (hfuel : (p :: l).length ≤ fuel) :
    ∃ last, (p :: l).getLast? = some last ∧ enterOverloaded t entry fuel p = some { t with
      overloadedNext := Function.update t.overloadedNext last (some entry)
      overloadedPrev := Function.update t.overloadedPrev entry (some last) } := by
  induction l generalizing p fuel with
  | nil =>
    cases fuel with
    | zero => cases hfuel
    | succ fuel =>
      refine ⟨p, rfl, ?_⟩
      rw [enterOverloaded, if_pos (halloc p List.mem_cons_self), hl.1]
      rfl
  | cons q l ih =>
    cases fuel with
    | zero => cases hfuel
    | succ fuel =>
      obtain ⟨last, hlast, hstep⟩ := ih (p := q) hl.2
        (fun x hx => halloc x (List.mem_cons_of_mem p hx)) (Nat.le_of_succ_le_succ hfuel)
      refine ⟨last, by rw [List.getLast?_cons_cons, hlast], ?_⟩
      rw [enterOverloaded, if_pos (halloc p List.mem_cons_self), hl.1]
      exact hstep

namespace Grouped

/-- One more overloaded entry of the innermost scope. -/
lemma enterOverloaded (G : Grouped hash t live heads overloads) (D : Detached t live entry)
    (hnew : ∀ p ∈ live, entry ∉ overloads p) (hnext : t.overloadedNext entry = none) {b : EntryPtr}
    (hb : b ∈ live) (hkey : t.key b = t.key entry) :
    ∃ t', t.enterOverloaded entry t.fresh b = some t' ∧
      Grouped hash t' live heads (Function.update overloads b (overloads b ++ [entry])) := by
  obtain ⟨last, hlast, hstep⟩ := enterOverloaded_stacked entry (G.chained b hb)
    (fun x hx => G.allocated_group hb hx) (G.length_group_le hb)
  have hlastmem : last ∈ b :: overloads b := List.mem_of_getLast? hlast
  have hne : entry ∉ b :: overloads b := by
    rw [List.mem_cons, not_or]
    exact ⟨fun heq => D.not_live (heq ▸ hb), hnew b hb⟩
  -- an overloaded entry is an old one, or the new one at the end of its group
  have hcase : ∀ {p q}, q ∈ Function.update overloads b (overloads b ++ [entry]) p → q ∈ overloads p ∨ p = b ∧ q = entry := by
    intro p q hq
    by_cases hpb : p = b
    · rw [hpb, Function.update_self, List.mem_append, List.mem_singleton] at hq
      rw [hpb]
      exact hq.imp_right fun h => ⟨rfl, h⟩
    · rw [Function.update_of_ne hpb] at hq
      exact .inl hq
  have S := G.scope
  refine ⟨_, hstep, ⟨S.nodup, S.allocated, S.lt_fresh, S.mem_heads, S.heads_nodup, S.table, S.linked,
    S.stacked⟩, G.shadowed, ?_, ?_, ?_, ?_, ?_, ?_, ?_, ?_⟩
  · intro p hp
    by_cases hpb : p = b
    · subst hpb
      rw [Function.update_self]
      refine stacked_concat (G.chained p hp) (G.nodup_group hp) ?_ ?_ ?_
      · intro x hx
        rw [hlast, Option.some.injEq] at hx
        rw [← hx]
        exact Function.update_self _ _ _
      · intro x _ hx
        refine Function.update_of_ne ?_ _ _
        rintro rfl
        exact hx hlast
      · refine (Function.update_of_ne ?_ _ _).trans hnext
        rintro rfl
        exact hne hlastmem
    · rw [Function.update_of_ne hpb]
      refine stacked_congr (G.chained p hp) fun x hx => Function.update_of_ne ?_ _ _
      rintro rfl
      exact hpb (G.disjoint_group hp hb hx hlastmem)
  · intro p hp
    by_cases hpb : p = b
    · rw [hpb, Function.update_self, List.nodup_append]
      refine ⟨G.nodup b hb, List.nodup_singleton _, ?_⟩
      intro x hx y hy heq
      rw [List.mem_singleton.mp hy] at heq
      exact hnew b hb (heq ▸ hx)
    · rw [Function.update_of_ne hpb]
      exact G.nodup p hp
  · intro p hp p' hp' q hq hq'
    rcases hcase hq with hold | ⟨rfl, rfl⟩
    · rcases hcase hq' with hold' | ⟨-, rfl⟩
      · exact G.disjoint p hp p' hp' q hold hold'
      · exact absurd hold (hnew p hp)
    · rcases hcase hq' with hold' | ⟨rfl, -⟩
      · exact absurd hold' (hnew p' hp')
      · rfl
  · intro p hp q hq
    rcases hcase hq with hq | ⟨rfl, rfl⟩
    · exact G.not_live p hp q hq
    · exact D.not_live
  · intro p hp q hq
    rcases hcase hq with hq | ⟨rfl, rfl⟩
    · exact G.allocated p hp q hq
    · exact D.allocated
  · intro p hp q hq
    rcases hcase hq with hq | ⟨rfl, rfl⟩
    · exact G.lt_fresh p hp q hq
    · exact D.lt_fresh
  · intro p hp q hq
    rcases hcase hq with hq | ⟨rfl, rfl⟩
    · exact G.key p hp q hq
    · exact hkey.symm
  · intro p hp q hq
    rcases hcase hq with hq | ⟨rfl, rfl⟩
    · exact G.unlinked p hp q hq
    · exact ⟨D.prev, D.next, D.outer⟩

/-- A new group has the new entry alone. -/
lemma members_cons (hentry : entry ∉ live) (p : EntryPtr) :
    Members (entry :: live) (Function.update overloads entry []) p ↔ p = entry ∨ Members live overloads p := by
  constructor
  · rintro ⟨x, hx, hp⟩
    by_cases hxe : x = entry
    · rw [hxe, Function.update_self, List.mem_singleton] at hp
      exact .inl hp
    · rw [Function.update_of_ne hxe] at hp
      exact .inr ⟨x, (List.mem_cons.mp hx).resolve_left hxe, hp⟩
  · rintro (rfl | ⟨x, hx, hp⟩)
    · exact ⟨p, List.mem_cons_self, List.mem_cons_self⟩
    · have hxe : x ≠ entry := by
        rintro rfl
        exact hentry hx
      refine ⟨x, List.mem_cons_of_mem _ hx, ?_⟩
      rwa [Function.update_of_ne hxe]

/-- An entry more in a group. -/
lemma members_append {b : EntryPtr} (hb : b ∈ live) (p : EntryPtr) :
    Members live (Function.update overloads b (overloads b ++ [entry])) p ↔
      p = entry ∨ Members live overloads p := by
  constructor
  · rintro ⟨x, hx, hp⟩
    by_cases hxb : x = b
    · rw [hxb, Function.update_self, List.mem_cons, List.mem_append, List.mem_singleton] at hp
      rcases hp with rfl | hp | rfl
      · exact .inr ⟨p, hb, List.mem_cons_self⟩
      · exact .inr ⟨b, hb, List.mem_cons_of_mem b hp⟩
      · exact .inl rfl
    · rw [Function.update_of_ne hxb] at hp
      exact .inr ⟨x, hx, hp⟩
  · rintro (rfl | ⟨x, hx, hp⟩)
    · refine ⟨b, hb, ?_⟩
      rw [Function.update_self]
      simp
    · refine ⟨x, hx, ?_⟩
      by_cases hxb : x = b
      · rw [hxb, Function.update_self]
        rw [hxb] at hp
        rcases List.mem_cons.mp hp with rfl | hp
        · exact List.mem_cons_self
        · exact List.mem_cons_of_mem b (List.mem_append_left _ hp)
      · rwa [Function.update_of_ne hxb]

/-- `SymbolTable::enter` of any name. -/
lemma enter (G : Grouped hash t live heads overloads) (key : Text) (nameSpace : Nat) (category : Category) :
    ∃ t' live' heads' overloads', t.enter hash key nameSpace category = some t' ∧
      Grouped hash t' live' heads' overloads' ∧ ∀ p, Members live' overloads' p ↔ p = t.fresh ∨ Members live overloads p := by
  have G₁ := G.newEntry key nameSpace category
  have D := G.scope.detached_newEntry key nameSpace category
  have hnew : ∀ p ∈ live, t.fresh ∉ overloads p := fun p hp hmem => Nat.lt_irrefl _ (G.lt_fresh p hp _ hmem)
  have hnext : (t.newEntry key nameSpace category).overloadedNext t.fresh = none := Function.update_self _ _ _
  by_cases hover : NotOverloaded (t.newEntry key nameSpace category) live
      ((t.newEntry key nameSpace category).key t.fresh) ((t.newEntry key nameSpace category).nameSpace t.fresh)
      ((t.newEntry key nameSpace category).category t.fresh)
  · obtain ⟨t', hs, hstep, G'⟩ := G₁.enterScope D hnew hnext hover
    exact ⟨t', _, hs, _, hstep, G', members_cons fun hmem => G.scope.ne_fresh hmem rfl⟩
  · unfold NotOverloaded at hover
    push Not at hover
    obtain ⟨b, hin, hsame⟩ := hover
    rcases G₁.scope.enterEntry_cases t.fresh with ⟨-, hnone, -⟩ | ⟨b', hin', hstep⟩ | ⟨last, hnone, -⟩
    · rw [hin] at hnone
      cases hnone
    · rw [hin, Option.some.injEq] at hin'
      subst hin'
      rw [if_pos hsame] at hstep
      have hb := innermost_mem hin
      obtain ⟨t', hover', G'⟩ := G₁.enterOverloaded D hnew hnext hb (innermost_key hin)
      exact ⟨t', _, _, _, hstep.trans hover', G', members_append hb⟩
    · rw [hin] at hnone
      cases hnone

end Grouped

/-! ### Removing -/

lemma fixShadow_overloadedNext {h : Nat} (hstep : t.fixShadow h p = some t') :
    t'.overloadedNext = t.overloadedNext := by
  unfold fixShadow at hstep
  split at hstep
  · rw [← Option.some.inj hstep]
  · split at hstep
    · exact setOuter_overloadedNext hstep
    · cases hstep

lemma removeScope_overloadedNext {c : EntryPtr} (hstep : t.removeScope hash p c = some t') :
    t'.overloadedNext = t.overloadedNext := by
  have hbucket : ∀ {u : SymbolTable}, u.overloadedNext = t.overloadedNext →
      (if u.table (hash (u.key p)) = some p then some (u.setBucket (hash (u.key p)) (some c))
        else u.fixShadow (hash (u.key p)) p) = some t' → t'.overloadedNext = t.overloadedNext := by
    intro u hu hsome
    split at hsome
    · rw [← Option.some.inj hsome]
      exact hu
    · exact (fixShadow_overloadedNext hsome).trans hu
  unfold SymbolTable.removeScope at hstep
  obtain ⟨t₁, h₁, hstep⟩ := Option.bind_eq_some_iff.mp hstep
  obtain ⟨t₂, h₂, hstep⟩ := Option.bind_eq_some_iff.mp hstep
  have h₂ := (setNext_overloadedNext h₂).trans (setPrev_overloadedNext h₁)
  dsimp only at hstep
  split at hstep
  · obtain ⟨t₃, h₃, hstep⟩ := Option.bind_eq_some_iff.mp hstep
    have h₃ := (setPrev_overloadedNext h₃).trans h₂
    split at hstep
    · exact (setNext_overloadedNext hstep).trans h₃
    · exact hbucket h₃ hstep
  · obtain ⟨t₃, h₃, hstep⟩ := Option.bind_eq_some_iff.mp hstep
    have h₃ : t₃.overloadedNext = t.overloadedNext := Option.some.inj h₃ ▸ h₂
    split at hstep
    · exact (setNext_overloadedNext hstep).trans h₃
    · exact hbucket h₃ hstep

lemma removeLast_overloadedNext (hstep : t.removeLast hash p = some t') : t'.overloadedNext = t.overloadedNext := by
  unfold SymbolTable.removeLast at hstep
  split at hstep
  · obtain ⟨t₁, h₁, hstep⟩ := Option.bind_eq_some_iff.mp hstep
    have h₁ := setNext_overloadedNext h₁
    split at hstep
    · exact (setPrev_overloadedNext hstep).trans h₁
    · rw [← Option.some.inj hstep]
      exact h₁
  · dsimp only at hstep
    split at hstep
    · split at hstep
      · rw [setPrev_overloadedNext hstep]
        rfl
      · rw [← Option.some.inj hstep]
        rfl
    · exact fixShadow_overloadedNext hstep

/-- What the removal of a scope leaves as it is. -/
structure RemoveFrame (t t' : SymbolTable) (live : List EntryPtr) (heads : Nat → List EntryPtr)
    (p : EntryPtr) : Prop where
  key : t'.key = t.key
  fresh : t'.fresh = t.fresh
  allocated : ∀ x, x ≠ p → t'.allocated x = t.allocated x
  overloadedNext : t'.overloadedNext = t.overloadedNext
  links : ∀ x, (∀ h, x ∉ heads h) → (x ∈ live → innermost t (live.erase p) (t.key x) ≠ some x) →
    t'.prev x = t.prev x ∧ t'.next x = t.next x
  outer : ∀ x, (∀ h, x ∉ heads h) → t'.outer x = t.outer x

lemma Scoped.removeFrame (S : Scoped hash t live heads) (hin : innermost t live (t.key p) = some p)
    (hstep : t.remove hash p = some t') : RemoveFrame t t' live heads p := by
  have hp := S.allocated p (innermost_mem hin)
  have hmem := S.mem_heads_innermost hin
  have halloc : ∀ {u : SymbolTable}, SameEntries t u → ∀ x, x ≠ p → (u.deleteEntry p).allocated x = t.allocated x := by
    intro u E x hx
    exact (Function.update_of_ne hx _ _).trans (congrFun E.allocated x)
  rw [SymbolTable.remove, if_pos hp] at hstep
  cases hc : t.outer p with
  | some c =>
    rw [hc] at hstep
    obtain ⟨hclive, hcp, hcheads⟩ := S.outer_spec hin hc
    have hne : ∀ {h x}, x ∈ heads h → x ≠ c := by
      rintro h x hx rfl
      exact hcheads h hx
    obtain ⟨u, hu, E, R, houter, -⟩ := removeScope_spec (S.allocated c hclive) hcp
      (fun x hx => ⟨S.allocated x (S.live_of_mem_heads (S.mem_of_link hmem hx).1),
        (S.mem_of_link hmem hx).2, hne (S.mem_of_link hmem hx).1⟩)
      (fun x hx => S.prev_ne_next hmem hx) (S.first hmem)
    dsimp only at hstep
    rw [hu] at hstep
    obtain rfl := Option.some.inj hstep
    have hover := removeScope_overloadedNext hu
    refine ⟨E.key, E.fresh, halloc E, hover, fun x hx hshadowed => ?_,
      fun x _ => congrFun houter x⟩
    have hxc : x ≠ c := by
      rintro rfl
      obtain ⟨rest, hf, hrest, hhead, -⟩ := S.filter_erase hin
      have hkey : t.key x = t.key p := by
        have hxf : x ∈ live.filter fun q => t.key q = t.key p := by
          rw [hf]
          exact List.mem_cons_of_mem p (List.mem_of_head? (hhead ▸ hc))
        simpa using (List.mem_filter.mp hxf).2
      refine hshadowed hclive ?_
      rw [hkey, innermost_eq_head?, hrest, ← hhead, hc]
    have hxp : x ≠ p := fun heq => hx _ (heq ▸ hmem)
    exact ⟨R.prev_same x hxp hxc fun hlink => hx _ (S.mem_of_link hmem (.inr hlink)).1,
      R.next_same x hxp hxc fun hlink => hx _ (S.mem_of_link hmem (.inl hlink)).1⟩
  | none =>
    rw [hc] at hstep
    obtain ⟨u, hu, E, houter, -, -, hprev, hnext, -⟩ := removeLast_spec
      (fun x hx => ⟨S.allocated x (S.live_of_mem_heads (S.mem_of_link hmem hx).1),
        (S.mem_of_link hmem hx).2⟩) (S.first hmem)
    dsimp only at hstep
    rw [hu] at hstep
    obtain rfl := Option.some.inj hstep
    have hover := removeLast_overloadedNext hu
    refine ⟨E.key, E.fresh, halloc E, hover, fun x hx _ => ?_, fun x _ => congrFun houter x⟩
    exact ⟨hprev x fun hlink => hx _ (S.mem_of_link hmem (.inr hlink)).1,
      hnext x fun hlink => hx _ (S.mem_of_link hmem (.inl hlink)).1⟩

/-- An entry stays the innermost one of its key when another one goes. -/
lemma innermost_erase_of_ne (hin : innermost t live key = some q) (hne : q ≠ p) :
    innermost t (live.erase p) key = some q := by
  unfold innermost at hin ⊢
  induction live with
  | nil => cases hin
  | cons x live ih =>
    by_cases hx : t.key x = key
    · rw [List.find?_cons_of_pos (by simpa using hx), Option.some.injEq] at hin
      subst hin
      rw [List.erase_cons_tail (by simpa using hne), List.find?_cons_of_pos (by simpa using hx)]
    · rw [List.find?_cons_of_neg (by simpa using hx)] at hin
      by_cases hxp : x = p
      · rw [hxp, List.erase_cons_head]
        exact hin
      · rw [List.erase_cons_tail (by simpa using hxp), List.find?_cons_of_neg (by simpa using hx)]
        exact ih hin

/-- Where a shadowed entry goes, the innermost entries are the same. -/
lemma innermost_erase_shadowed (hp : innermost t live (t.key p) ≠ some p) (key : Text) :
    innermost t (live.erase p) key = innermost t live key := by
  cases hin : innermost t live key with
  | none =>
    refine List.find?_eq_none.mpr fun x hx => ?_
    exact List.find?_eq_none.mp hin x (List.mem_of_mem_erase hx)
  | some q =>
    refine innermost_erase_of_ne hin ?_
    rintro rfl
    exact hp (innermost_key hin ▸ hin)

namespace Grouped

/-- A scope is gone, whatever its overloaded entries are. -/
lemma removed (G : Grouped hash t live heads overloads) (hp : p ∈ live) {hs : Nat → List EntryPtr}
    (S' : Scoped hash t' (live.erase p) hs) (F : RemoveFrame t t' live heads p) :
    Grouped hash t' (live.erase p) hs overloads := by
  have hold : ∀ {x}, x ∈ live.erase p → x ∈ live := fun hx => List.mem_of_mem_erase hx
  have hnotHeads : ∀ {x q}, x ∈ live → q ∈ overloads x → ∀ h, q ∉ heads h := fun hx hq h hmem =>
    G.not_live _ hx _ hq (G.scope.live_of_mem_heads hmem)
  refine ⟨S', ?_, ?_, fun x hx => G.nodup x (hold hx), fun x hx y hy => G.disjoint x (hold hx) y (hold hy),
    fun x hx q hq hmem => G.not_live x (hold hx) q hq (hold hmem), ?_, ?_, ?_, ?_⟩
  · intro x hx hin
    rw [F.key] at hin
    have hkeys : innermost t' (live.erase p) (t.key x) = innermost t (live.erase p) (t.key x) :=
      innermost_congr (fun y _ => by rw [F.key]) _
    rw [hkeys] at hin
    have hxp : x ≠ p := fun heq => G.scope.nodup.not_mem_erase (heq ▸ hx)
    have hshadowed : innermost t live (t.key x) ≠ some x := fun hx' => hin (innermost_erase_of_ne hx' hxp)
    obtain ⟨hprev, hnext⟩ := G.shadowed x (hold hx) hshadowed
    obtain ⟨hprev', hnext'⟩ := F.links x (fun h hmem => hshadowed ((G.scope.mem_heads h x).mp hmem).2) fun _ => hin
    exact ⟨hprev'.trans hprev, hnext'.trans hnext⟩
  · intro x hx
    rw [F.overloadedNext]
    exact G.chained x (hold hx)
  · intro x hx q hq
    rw [F.allocated q fun heq => G.not_live x (hold hx) q hq (heq ▸ hp)]
    exact G.allocated x (hold hx) q hq
  · intro x hx q hq
    rw [F.fresh]
    exact G.lt_fresh x (hold hx) q hq
  · intro x hx q hq
    rw [F.key]
    exact G.key x (hold hx) q hq
  · intro x hx q hq
    obtain ⟨hprev, hnext, houter⟩ := G.unlinked x (hold hx) q hq
    obtain ⟨hprev', hnext'⟩ := F.links q (hnotHeads (hold hx) hq) fun hlive =>
      absurd hlive (G.not_live x (hold hx) q hq)
    exact ⟨hprev'.trans hprev, hnext'.trans hnext, (F.outer q (hnotHeads (hold hx) hq)).trans houter⟩

lemma remove_innermost (G : Grouped hash t live heads overloads) (hin : innermost t live (t.key p) = some p) :
    ∃ t' hs, t.remove hash p = some t' ∧ t'.key = t.key ∧ Grouped hash t' (live.erase p) hs overloads := by
  obtain ⟨t', hs, hstep, hkey, S'⟩ := G.scope.remove hin
  exact ⟨t', hs, hstep, hkey, G.removed (innermost_mem hin) S' (G.scope.removeFrame hin hstep)⟩

end Grouped

lemma removeScope_unlinked {c : EntryPtr} (hprev : t.prev p = none) (hnext : t.next p = none)
    (hne : t.table (hash (t.key p)) ≠ some p) (halloc : t.allocated c = true) (hcprev : t.prev c = none)
    (hcnext : t.next c = none) : t.removeScope hash p c = t.fixShadow (hash (t.key p)) p := by
  have hp : Function.update t.prev c none = t.prev := by rw [← hcprev, Function.update_eq_self]
  have hn : Function.update t.next c none = t.next := by rw [← hcnext, Function.update_eq_self]
  simp [SymbolTable.removeScope, setPrev, setNext, halloc, hprev, hnext, hp, hn, hne]

lemma removeLast_unlinked (hprev : t.prev p = none) (hne : t.table (hash (t.key p)) ≠ some p) :
    t.removeLast hash p = t.fixShadow (hash (t.key p)) p := by
  simp [SymbolTable.removeLast, hprev, hne]

namespace Grouped

/-- What hangs on a scope is not the innermost one of its key. -/
lemma outer_shadowed (G : Grouped hash t live heads overloads) (hq : q ∈ live) (hout : t.outer q = some p) :
    innermost t live (t.key p) ≠ some p := by
  obtain ⟨-, hkey, hne, a, b, hab⟩ := G.outer_live hq hout
  have hnd := G.scope.nodup.filter fun x => decide (t.key x = t.key q)
  rw [hkey, innermost_eq_head?, hab]
  rw [hab] at hnd
  cases a with
  | nil => exact fun heq => hne (Option.some.inj heq).symm
  | cons x a =>
    rintro heq
    obtain rfl := Option.some.inj heq
    exact (List.nodup_cons.mp hnd).1 (by simp)

/-- An entry that is in no bucket list is only unlinked from the first entry of the bucket. -/
lemma remove_unlinked (G : Grouped hash t live heads overloads) (hp : t.allocated p = true) (hprev : t.prev p = none)
    (hnext : t.next p = none) (hne : t.table (hash (t.key p)) ≠ some p)
    (hout : ∀ c, t.outer p = some c → c ∈ live ∧ innermost t live (t.key c) ≠ some c) :
    t.remove hash p = (t.fixShadow (hash (t.key p)) p).map fun t => t.deleteEntry p := by
  rw [SymbolTable.remove, if_pos hp, Option.map_eq_bind]
  cases hc : t.outer p with
  | none =>
    dsimp only
    rw [removeLast_unlinked hprev hne]
    rfl
  | some c =>
    obtain ⟨hclive, hcin⟩ := hout c hc
    obtain ⟨hcprev, hcnext⟩ := G.shadowed c hclive hcin
    dsimp only
    rw [removeScope_unlinked hprev hnext hne (G.scope.allocated c hclive) hcprev hcnext]
    rfl

lemma remove_eq_fixShadow (G : Grouped hash t live heads overloads) (hp : Members live overloads p)
    (hin : innermost t live (t.key p) ≠ some p) :
    t.remove hash p = (t.fixShadow (hash (t.key p)) p).map fun t => t.deleteEntry p := by
  have hne : t.table (hash (t.key p)) ≠ some p := by
    intro htable
    obtain ⟨x, hx, hpx⟩ := hp
    obtain ⟨s, hs, -, hsin⟩ := G.exists_first hx
    rw [G.key_group hx hpx, hs, Option.some.injEq] at htable
    exact hin (htable ▸ hsin)
  obtain ⟨x, hx, hpx⟩ := hp
  rcases List.mem_cons.mp hpx with rfl | hover
  · obtain ⟨hprev, hnext⟩ := G.shadowed p hx hin
    refine G.remove_unlinked (G.scope.allocated p hx) hprev hnext hne fun c hc => ?_
    exact ⟨(G.outer_live hx hc).1, G.outer_shadowed hx hc⟩
  · obtain ⟨hprev, hnext, hnone⟩ := G.unlinked x hx p hover
    refine G.remove_unlinked (G.allocated x hx p hover) hprev hnext hne fun c hc => ?_
    rw [hnone] at hc
    cases hc

/-- The loop does not end where the entry does not hang on the first one of its bucket. -/
lemma remove_stuck (G : Grouped hash t live heads overloads) (hp : Members live overloads p)
    (hin : innermost t live (t.key p) ≠ some p)
    (hfirst : ∀ s, t.table (hash (t.key p)) = some s → t.outer s ≠ some p) : t.remove hash p = none := by
  have hsome : ∃ s, t.table (hash (t.key p)) = some s := by
    obtain ⟨x, hx, hpx⟩ := hp
    obtain ⟨s, hs, -⟩ := G.exists_first hx
    exact ⟨s, by rw [G.key_group hx hpx, hs]⟩
  obtain ⟨s, hs⟩ := hsome
  rw [G.remove_eq_fixShadow hp hin, fixShadow, hs]
  dsimp only
  rw [if_neg fun h => hfirst s hs h.2]
  rfl

/-- The scope right behind the first entry of its bucket. -/
lemma remove_second (G : Grouped hash t live heads overloads) (hp : p ∈ live) {s : EntryPtr}
    (hin : innermost t live (t.key p) ≠ some p) (hs : t.table (hash (t.key p)) = some s)
    (hout : t.outer s = some p) :
    ∃ t', t.remove hash p = some t' ∧ t'.key = t.key ∧ Grouped hash t' (live.erase p) heads overloads := by
  have S := G.scope
  have hsmem : s ∈ heads (hash (t.key p)) := by
    rw [S.table] at hs
    exact List.mem_of_head? hs
  have hslive := S.live_of_mem_heads hsmem
  have hsin := ((S.mem_heads _ s).mp hsmem).2
  obtain ⟨-, hkey, -, a, b, hab⟩ := G.outer_live hslive hout
  have hstep : t.remove hash p =
      some ({ t with outer := Function.update t.outer s (t.outer p) }.deleteEntry p) := by
    have halloc := S.allocated s hslive
    rw [G.remove_eq_fixShadow ⟨p, hp, List.mem_cons_self⟩ hin, fixShadow, hs]
    dsimp only
    rw [if_pos ⟨halloc, hout⟩, setOuter, if_pos halloc]
    rfl
  have hinner := fun key => innermost_erase_shadowed hin key
  have hnd := S.nodup
  refine ⟨_, hstep, rfl, G.removed hp ⟨hnd.erase p, ?_, ?_, ?_, S.heads_nodup, S.table, S.linked, ?_⟩
    ⟨rfl, rfl, fun x hx => Function.update_of_ne hx _ _, rfl, fun _ _ _ => ⟨rfl, rfl⟩, fun x hx => ?_⟩⟩
  · intro x hx
    have hxp : x ≠ p := fun heq => hnd.not_mem_erase (heq ▸ hx)
    exact (Function.update_of_ne hxp _ _).trans (S.allocated x (List.mem_of_mem_erase hx))
  · exact fun x hx => S.lt_fresh x (List.mem_of_mem_erase hx)
  · intro h x
    rw [S.mem_heads h x, ← hinner]
    rfl
  · intro key
    have hcomm : ((live.erase p).filter fun x => decide (t.key x = key)) =
        (live.filter fun x => decide (t.key x = key)).erase p := by
      rw [hnd.erase_eq_filter, (hnd.filter _).erase_eq_filter, List.filter_filter, List.filter_filter]
      simp only [Bool.and_comm]
    have hstack := S.stacked key
    show Stacked (Function.update t.outer s (t.outer p)) ((live.erase p).filter fun x => decide (t.key x = key))
    rw [hcomm]
    by_cases hk : key = t.key s
    · subst hk
      rw [hab] at hstack ⊢
      have hndf := hnd.filter fun x => decide (t.key x = t.key s)
      rw [hab] at hndf
      -- the first entry of the bucket is the innermost one of its key
      have ha : a = [] := by
        rw [innermost_eq_head?, hab] at hsin
        cases a with
        | nil => rfl
        | cons x a =>
          obtain rfl := Option.some.inj hsin
          exact absurd (by simp) (List.nodup_cons.mp hndf).1
      subst ha
      have hsp : s ∉ p :: b := (List.nodup_cons.mp hndf).1
      have hps : s ≠ p := fun heq => hsp (heq ▸ List.mem_cons_self)
      rw [List.nil_append] at hstack ⊢
      rw [List.erase_cons_tail (by simpa using hps), List.erase_cons_head]
      refine ⟨by rw [Function.update_self]; exact hstack.2.1, stacked_congr hstack.2.2 fun x hx => ?_⟩
      refine Function.update_of_ne ?_ _ _
      rintro rfl
      exact hsp (List.mem_cons_of_mem p hx)
    · have hnot : p ∉ live.filter fun x => decide (t.key x = key) := by
        intro hmem
        have hpk : t.key p = key := by simpa using (List.mem_filter.mp hmem).2
        exact hk (hpk.symm.trans hkey)
      rw [List.erase_of_not_mem hnot]
      refine stacked_congr hstack fun x hx => Function.update_of_ne ?_ _ _
      rintro rfl
      have hsk : t.key x = key := by simpa using (List.mem_filter.mp hx).2
      exact hk hsk.symm
  · refine Function.update_of_ne ?_ _ _
    rintro rfl
    exact hx _ hsmem

/-! ### One entry alone -/

lemma filter_group (G : Grouped hash t live heads overloads) (hp : p ∈ live) (hq : q ∈ live) :
    (q :: overloads q).filter (· ≠ p) = if q = p then overloads p else q :: overloads q := by
  have hover : ∀ x ∈ overloads q, x ≠ p := by
    rintro x hx rfl
    exact G.not_live q hq x hx hp
  have hkeep : (overloads q).filter (· ≠ p) = overloads q :=
    List.filter_eq_self.mpr fun x hx => decide_eq_true (hover x hx)
  split
  next heq =>
    rw [List.filter_cons_of_neg (by simp [heq]), hkeep, heq]
  next hne => rw [List.filter_cons_of_pos (by simp [hne]), hkeep]

lemma without_of_nil (G : Grouped hash t live heads overloads) (hp : p ∈ live) (hover : overloads p = [])
    {l : List EntryPtr} (hl : ∀ x ∈ l, x ∈ live) :
    without p (l.map fun x => x :: overloads x) = (l.filter (· ≠ p)).map fun x => x :: overloads x := by
  induction l with
  | nil => rfl
  | cons x l ih =>
    have hrest := ih fun y hy => hl y (List.mem_cons_of_mem x hy)
    unfold without at hrest ⊢
    rw [List.map_cons, List.map_cons, G.filter_group hp (hl x List.mem_cons_self)]
    by_cases hx : x = p
    · rw [if_pos hx, hover, List.filter_cons_of_neg (by simp), hrest, List.filter_cons_of_neg (by simp [hx])]
    · rw [if_neg hx, List.filter_cons_of_pos (by simp), hrest, List.filter_cons_of_pos (by simp [hx]), List.map_cons]

lemma length_without (G : Grouped hash t live heads overloads) (hp : p ∈ live) (hover : overloads p ≠ [])
    {l : List EntryPtr} (hl : ∀ x ∈ l, x ∈ live) :
    (without p (l.map fun x => x :: overloads x)).length = l.length := by
  unfold without
  rw [List.filter_eq_self.mpr, List.length_map, List.length_map]
  intro g hg
  obtain ⟨g', hg', rfl⟩ := List.mem_map.mp hg
  obtain ⟨x, hx, rfl⟩ := List.mem_map.mp hg'
  rw [G.filter_group hp (hl x hx)]
  split
  · simpa using hover
  · rfl

/-- Where a scope goes, its entry goes alone if it has no overloaded entries, and takes them along otherwise. -/
lemma removesAlone_iff_nil (G : Grouped hash t live heads overloads) (hp : p ∈ live)
    (hremove : ∃ t' hs, t.remove hash p = some t' ∧ t'.key = t.key ∧ Grouped hash t' (live.erase p) hs overloads) :
    RemovesAlone hash t p ↔ overloads p = [] := by
  obtain ⟨t', hs, hstep, hkey, G'⟩ := hremove
  have hnd := G.scope.nodup
  have hfilter : ∀ key, ((live.erase p).filter fun x => t'.key x = key) =
      (live.filter fun x => t.key x = key).filter (· ≠ p) := by
    intro key
    rw [hkey, hnd.erase_eq_filter, List.filter_filter, List.filter_filter]
    refine List.filter_congr fun x _ => ?_
    by_cases hx : x = p <;> simp [hx]
  have hlive : ∀ key, ∀ x ∈ live.filter fun x => decide (t.key x = key), x ∈ live :=
    fun key x hx => List.mem_of_mem_filter hx
  constructor
  · rintro ⟨u, hu, hscopes⟩
    rw [hstep, Option.some.injEq] at hu
    subst hu
    by_contra hover
    obtain ⟨l, hl, hl'⟩ := hscopes (t.key p)
    rw [G.scopes_eq, Option.some.injEq] at hl
    rw [G'.scopes_eq, Option.some.injEq, hfilter] at hl'
    have hlength := congrArg List.length hl'
    rw [← hl, G.length_without hp hover (hlive _), List.length_map] at hlength
    have hlt : ((live.filter fun x => decide (t.key x = t.key p)).filter (· ≠ p)).length <
        (live.filter fun x => decide (t.key x = t.key p)).length := by
      refine List.length_filter_lt_length_iff_exists.mpr ⟨p, List.mem_filter.mpr ⟨hp, by simp⟩, by simp⟩
    omega
  · intro hover
    refine ⟨t', hstep, fun key => ⟨_, G.scopes_eq key, ?_⟩⟩
    rw [G'.scopes_eq, hfilter, G.without_of_nil hp hover (hlive key)]

/-- The entries that go alone are those that the condition names. -/
lemma removesAlone_iff (G : Grouped hash t live heads overloads) (hp : Members live overloads p) :
    RemovesAlone hash t p ↔ Removable hash t p := by
  have hfind : t.find hash (t.key p) .c_unspec = some (innermost t live (t.key p)) := G.scope.find_eq _
  rw [Removable, hfind, Option.some.injEq]
  by_cases hin : innermost t live (t.key p) = some p
  · have hlive := innermost_mem hin
    rw [G.removesAlone_iff_nil hlive (G.remove_innermost hin), G.overloadedNext_eq_none_iff hlive]
    exact (and_iff_left (.inl hin)).symm
  by_cases hsecond : ∃ s, t.table (hash (t.key p)) = some s ∧ t.outer s = some p
  · obtain ⟨s, hs, hout⟩ := hsecond
    have hmem : s ∈ heads (hash (t.key p)) := by
      rw [G.scope.table] at hs
      exact List.mem_of_head? hs
    have hlive := (G.outer_live (G.scope.live_of_mem_heads hmem) hout).1
    obtain ⟨t', hstep, hkey, G'⟩ := G.remove_second hlive hin hs hout
    rw [G.removesAlone_iff_nil hlive ⟨t', heads, hstep, hkey, G'⟩, G.overloadedNext_eq_none_iff hlive]
    exact (and_iff_left (.inr ⟨s, hs, hout⟩)).symm
  · refine iff_of_false ?_ fun h => h.2.elim hin hsecond
    rintro ⟨t', hstep, -⟩
    rw [G.remove_stuck hp hin fun s hs hout => hsecond ⟨s, hs, hout⟩] at hstep
    cases hstep

/-- What can go alone is the only entry of its group. -/
lemma remove (G : Grouped hash t live heads overloads) (hallow : Removable hash t p)
    (hstep : t.remove hash p = some t') :
    p ∈ live ∧ overloads p = [] ∧ ∃ hs, Grouped hash t' (live.erase p) hs overloads := by
  obtain ⟨hnext, hwhere⟩ := hallow
  have hfind : t.find hash (t.key p) .c_unspec = some (innermost t live (t.key p)) := G.scope.find_eq _
  by_cases hin : innermost t live (t.key p) = some p
  · have hlive := innermost_mem hin
    obtain ⟨u, hs, hu, -, G'⟩ := G.remove_innermost hin
    rw [hstep, Option.some.injEq] at hu
    exact ⟨hlive, (G.overloadedNext_eq_none_iff hlive).mp hnext, hs, hu ▸ G'⟩
  · obtain ⟨s, hs, hout⟩ := hwhere.resolve_left fun h => hin (Option.some.inj (hfind.symm.trans h))
    have hmem : s ∈ heads (hash (t.key p)) := by
      rw [G.scope.table] at hs
      exact List.mem_of_head? hs
    have hlive := (G.outer_live (G.scope.live_of_mem_heads hmem) hout).1
    obtain ⟨u, hu, -, G'⟩ := G.remove_second hlive hin hs hout
    rw [hstep, Option.some.injEq] at hu
    exact ⟨hlive, (G.overloadedNext_eq_none_iff hlive).mp hnext, heads, hu ▸ G'⟩

end Grouped

/-! ### Runs -/

/-- In the runs that remove only what can go alone, the live entries are those of the groups. -/
lemma Steps.grouped {entries : List EntryPtr} (R : Steps hash (Removable hash) t entries) :
    ∃ live heads overloads, Grouped hash t live heads overloads ∧ entries.Nodup ∧
      ∀ p, p ∈ entries ↔ Members live overloads p := by
  induction R with
  | init =>
    refine ⟨[], _, _, grouped_empty hash, List.nodup_nil, fun p => ?_⟩
    exact iff_of_false List.not_mem_nil fun ⟨x, hx, _⟩ => List.not_mem_nil hx
  | @enter t t' entries key nameSpace category run step ih =>
    obtain ⟨live, heads, overloads, G, hnd, hmem⟩ := ih
    obtain ⟨u, live', heads', overloads', hu, G', hmem'⟩ := G.enter key nameSpace category
    rw [step, Option.some.injEq] at hu
    subst hu
    refine ⟨live', heads', overloads', G', List.nodup_cons.mpr ⟨fun hfresh => ?_, hnd⟩, fun p => ?_⟩
    · obtain ⟨x, hx, hfx⟩ := (hmem _).mp hfresh
      exact G.ne_fresh hx hfx rfl
    · rw [List.mem_cons, hmem p, hmem' p]
  | @remove t t' entries p run live allow step ih =>
    obtain ⟨groups, heads, overloads, G, hnd, hmem⟩ := ih
    obtain ⟨hp, hover, hs, G'⟩ := G.remove allow step
    refine ⟨groups.erase p, hs, overloads, G', hnd.erase p, fun q => ?_⟩
    rw [hnd.mem_erase_iff, hmem q]
    constructor
    · rintro ⟨hne, x, hx, hq⟩
      refine ⟨x, (G.scope.nodup.mem_erase_iff).mpr ⟨?_, hx⟩, hq⟩
      rintro rfl
      rw [hover, List.mem_singleton] at hq
      exact hne hq
    · rintro ⟨x, hx, hq⟩
      obtain ⟨hxp, hxg⟩ := (G.scope.nodup.mem_erase_iff).mp hx
      refine ⟨?_, x, hxg, hq⟩
      rintro rfl
      rcases List.mem_cons.mp hq with rfl | hq
      · exact hxp rfl
      · exact G.not_live x hxg q hq hp

/-- In every run that removes only entries without overloaded ones that are the innermost of their key or hang on the
first entry of their bucket: a key leads to the live entries that have it, and the next call of `remove` ends and
takes one entry alone away if and only if the entry is one of these. -/
theorem remove_alone_iff (prime : Nat) (t : SymbolTable) (entries : List EntryPtr)
    (R : Steps (SymbolTable.hash prime) (Removable (SymbolTable.hash prime)) t entries) :
    (∀ key, ∃ l, t.scopes (SymbolTable.hash prime) key = some l ∧
      ∀ p, p ∈ l.flatten ↔ p ∈ entries ∧ t.key p = key) ∧
    ∀ p ∈ entries, RemovesAlone (SymbolTable.hash prime) t p ↔ Removable (SymbolTable.hash prime) t p := by
  obtain ⟨live, heads, overloads, G, -, hmem⟩ := R.grouped
  refine ⟨fun key => ⟨_, G.scopes_eq key, fun p => ?_⟩, fun p hp => G.removesAlone_iff ((hmem p).mp hp)⟩
  have hkey : ∀ {x}, x ∈ live → p ∈ x :: overloads x → t.key p = t.key x := fun hx hp => G.key_group hx hp
  rw [hmem p, List.mem_flatten]
  constructor
  · rintro ⟨g, hg, hp⟩
    obtain ⟨x, hx, rfl⟩ := List.mem_map.mp hg
    obtain ⟨hx, hxkey⟩ := List.mem_filter.mp hx
    exact ⟨⟨x, hx, hp⟩, (hkey hx hp).trans (of_decide_eq_true hxkey)⟩
  · rintro ⟨⟨x, hx, hp⟩, rfl⟩
    exact ⟨_, List.mem_map.mpr ⟨x, List.mem_filter.mpr ⟨hx, by simp [hkey hx hp]⟩, rfl⟩, hp⟩

/-- The outer one of two variables `a` hangs on the first entry of its bucket. -/
theorem remove_alone_outer :
    Steps (SymbolTable.hash 31) (Removable (SymbolTable.hash 31)) innerA [1, 0] ∧
      RemovesAlone (SymbolTable.hash 31) innerA 0 := by
  have h₁ : Steps (SymbolTable.hash 31) (Removable (SymbolTable.hash 31)) outerA [0] := Steps.enter Steps.init rfl
  have hstep : outerA.enter (SymbolTable.hash 31) [97] 1 .c_variable = some innerA := rfl
  have h₂ := Steps.enter h₁ hstep
  exact ⟨h₂, ((remove_alone_iff 31 innerA [1, 0] h₂).2 0 (by simp)).mpr ⟨rfl, .inr ⟨1, rfl, rfl⟩⟩⟩

/-- A third variable `a` in one more namespace. -/
def innermostA : SymbolTable := (innerA.enter (SymbolTable.hash 31) [97] 2 .c_variable).getD empty

/-- The loop does not end for the outermost of three scopes. -/
theorem not_remove_alone : ¬ ∀ (prime : Nat) (t : SymbolTable) (entries : List EntryPtr),
    Steps (SymbolTable.hash prime) (fun _ _ => True) t entries →
      ∀ p ∈ entries, RemovesAlone (SymbolTable.hash prime) t p := by
  intro hall
  have h₁ : Steps (SymbolTable.hash 31) (fun _ _ => True) outerA [0] := Steps.enter Steps.init rfl
  have hstep₂ : outerA.enter (SymbolTable.hash 31) [97] 1 .c_variable = some innerA := rfl
  have hstep₃ : innerA.enter (SymbolTable.hash 31) [97] 2 .c_variable = some innermostA := rfl
  obtain ⟨t', hremove, -⟩ := hall 31 innermostA [2, 1, 0] (Steps.enter (Steps.enter h₁ hstep₂) hstep₃) 0 (by simp)
  have hendless : innermostA.remove (SymbolTable.hash 31) 0 = none := rfl
  rw [hendless] at hremove
  cases hremove

end YastCore.SymbolTable
