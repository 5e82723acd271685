import YastCore.Value.Handles

/-!
# Copy on write

Every handle reads as the value that it would have if nothing were shared, and every counter is the
number of the pointers to its representation.
-/

namespace YastCore.Handles

open RefHeap Heap YCPValue

/-- Every handle reads as its value, and every counter is the number of pointers. -/
structure Refines (H : YHeap) (env : List YCPValue) : Prop where
  exact : Exact H []
  reads : List.Forall₂ (fun v s => ReadsAs H (toTree v) s) env H.vars

variable {H H' : YHeap} {env : List YCPValue} {h : Nat}

lemma Refines.length_eq (R : Refines H env) : env.length = H.vars.length := R.reads.length_eq

/-- The handle of a value. -/
lemma Refines.get (R : Refines H env) {v : YCPValue} (hv : env[h]? = some v) :
    ∃ s, H.vars[h]? = some s ∧ ReadsAs H (toTree v) s := by
  obtain ⟨hlt, hget⟩ := List.getElem?_eq_some_iff.mp hv
  have hlt' : h < H.vars.length := by rw [← R.length_eq]; exact hlt
  refine ⟨H.vars[h], List.getElem?_eq_getElem hlt', ?_⟩
  have hreads := (List.forall₂_iff_get.mp R.reads).2 h hlt hlt'
  rw [← hget]
  exact hreads

/-- The handles from one heap to another, apart from the one that was assigned to. -/
lemma refines_set {pending : List Ptr} (hexact : Exact H pending) (hexact' : Exact H' [])
    (hkept : Kept nowhere H H') (hreads : List.Forall₂ (fun v s => ReadsAs H (toTree v) s) env H.vars)
    {s : Slot} (hvars : H'.vars = H.vars.set h s) {v : YCPValue} (hs : ReadsAs H (toTree v) s) :
    Refines H' (env.set h v) := by
  refine ⟨hexact', ?_⟩
  have hlive : ∀ s ∈ H'.vars, Live H' s := by
    rintro s hmem p rfl
    exact hexact'.live_var hmem
  rw [hvars] at hlive ⊢
  rw [List.forall₂_iff_get] at hreads ⊢
  refine ⟨by simpa using hreads.1, fun j h₁ h₂ => ?_⟩
  have hj₁ : j < env.length := by simpa using h₁
  have hj₂ : j < H.vars.length := by simpa using h₂
  have hlive' := hlive _ (List.get_mem _ ⟨j, h₂⟩)
  refine hkept.reads hexact hexact' (sealed_nowhere H) hlive' (fun _ _ hn => hn) ?_
  simp only [List.get_eq_getElem, List.getElem_set]
  split
  · exact hs
  · exact hreads.2 j hj₁ hj₂

lemma Refines.of_kept {pending : List Ptr} (hexact : Exact H pending) (hexact' : Exact H' [])
    (hkept : Kept nowhere H H') (hreads : List.Forall₂ (fun v s => ReadsAs H (toTree v) s) env H.vars)
    (hvars : H'.vars = H.vars) : Refines H' env := by
  refine ⟨hexact', ?_⟩
  have hlive : ∀ s ∈ H'.vars, Live H' s := by
    rintro s hmem p rfl
    exact hexact'.live_var hmem
  rw [hvars] at hlive ⊢
  rw [List.forall₂_iff_get] at hreads ⊢
  refine ⟨hreads.1, fun j h₁ h₂ => ?_⟩
  exact hkept.reads hexact hexact' (sealed_nowhere H) (hlive _ (List.get_mem _ ⟨j, h₂⟩))
    (fun _ _ hn => hn) (hreads.2 j h₁ h₂)

lemma assignTemporary_refines (R : Refines H env) (hh : h < env.length) {v : YCPValue} {s : Slot}
    (hs : ReadsAs H (toTree v) s) :
    ∃ H', assignTemporary H h s = some H' ∧ Refines H' (env.set h v) := by
  obtain ⟨H₁, hclone, hexact₁, hsame₁⟩ := R.exact.clone hs.live
  have hlt : h < H₁.vars.length := by rw [hsame₁.vars, ← R.length_eq]; exact hh
  obtain ⟨H₂, hassign, hexact₂, hkept₂, hvars₂⟩ := hexact₁.assignVar (s := s) hlt (by
    rintro p rfl
    exact .inr (by simp))
  obtain ⟨H₃, hdestroy, hexact₃, hkept₃, hvars₃, -⟩ := hexact₂.destroy nowhere
  refine ⟨H₃, ?_, ?_⟩
  · rw [assignTemporary, hclone]
    simp only [Option.bind_eq_bind, Option.bind_some, hassign, hdestroy]
  · refine refines_set R.exact hexact₃ (((hsame₁.kept nowhere).trans hkept₂).trans hkept₃) R.reads ?_ hs
    rw [hvars₃, hvars₂, hsame₁.vars]

lemma alloc_refines (R : Refines H env) (kind : RepKind) {slots : List Slot} {ts : List (RepTree RepKind)}
    (hslots : List.Forall₂ (ReadsAs H) ts slots) :
    ∃ H', H.alloc kind slots = some (H.next, H') ∧ Refines H' env ∧
      ReadsAs H' (.node kind ts) (some H.next) := by
  have hlive := live_of_forall₂ hslots
  obtain ⟨H', halloc, hexact, hvars, hnext, hrep, hshape⟩ := R.exact.alloc kind hlive
  have hkept : Kept nowhere H H' :=
    ⟨hnext ▸ Nat.le_succ _, fun q _ hq _ _ => hshape q (Nat.ne_of_lt hq)⟩
  refine ⟨H', halloc, Refines.of_kept R.exact hexact hkept R.reads hvars, ?_⟩
  refine readsAs_node.mpr ⟨H.next, slots, rfl, shape_of_rep hrep, ?_⟩
  refine forall₂_imp_mem hslots fun t s hs ht => ?_
  refine hkept.reads R.exact hexact (sealed_nowhere H) ?_ (fun _ _ hn => hn) ht
  rintro p rfl
  exact hexact.live_slot (by rw [slotsOf_of_rep hrep]; exact hs)

/-! ### New handles -/

/-- A new representation in a handle. -/
lemma new_refines (R : Refines H env) (hh : h < env.length) (kind : RepKind) {slots : List Slot}
    {ts : List (RepTree RepKind)} (hslots : List.Forall₂ (ReadsAs H) ts slots) {v : YCPValue}
    (hv : toTree v = .node kind ts) :
    ∃ H', (H.alloc kind slots).bind (fun x => assignTemporary x.2 h (some x.1)) = some H' ∧
      Refines H' (env.set h v) := by
  obtain ⟨H₁, halloc, R₁, hreads⟩ := alloc_refines R kind hslots
  rw [← hv] at hreads
  obtain ⟨H', hassign, R'⟩ := assignTemporary_refines R₁ hh hreads
  refine ⟨H', ?_, R'⟩
  rw [halloc]
  exact hassign

lemma step_atom (R : Refines H env) {v : YCPValue} (hv : v.isAtom = true) (hh : h < env.length) :
    ∃ H', step H (.atom h v) = some H' ∧ Refines H' (env.set h v) := by
  rw [step, if_pos hv]
  exact new_refines R hh _ .nil (toTree_of_isAtom hv)

lemma step_newList (R : Refines H env) (hh : h < env.length) :
    ∃ H', step H (.newList h) = some H' ∧ Refines H' (env.set h (list [])) := by
  rw [step]
  exact new_refines R hh _ .nil (by rw [toTree, toTrees])

lemma step_newMap (R : Refines H env) (hh : h < env.length) :
    ∃ H', step H (.newMap h) = some H' ∧ Refines H' (env.set h (map [])) := by
  rw [step]
  exact new_refines R hh _ .nil (by rw [toTree, toEntries])

lemma step_newTerm (R : Refines H env) (hh : h < env.length) (name : Text) :
    ∃ H', step H (.newTerm h name) = some H' ∧ Refines H' (env.set h (term name [])) := by
  obtain ⟨H₁, halloc, R₁, hreads⟩ := alloc_refines R .list List.Forall₂.nil
  rw [step, halloc]
  exact new_refines R₁ hh _ (.cons hreads .nil) (by rw [toTree, toTrees])

lemma kindOf_of_reads {kind : RepKind} {ts : List (RepTree RepKind)} {s : Slot}
    (hs : ReadsAs H (.node kind ts) s) : kindOf H s = some kind := by
  obtain ⟨p, slots, rfl, hshape, -⟩ := readsAs_node.mp hs
  obtain ⟨counter, hr⟩ := exists_rep_of_shape hshape
  simp [kindOf, hr]

lemma step_termOf (R : Refines H env) (hh : h < env.length) (name : Text) {l : Nat} {args : List YCPValue}
    (hl : env[l]? = some (list args)) :
    ∃ H', step H (.termOf h name l) = some H' ∧ Refines H' (env.set h (term name args)) := by
  obtain ⟨s, hget, hreads⟩ := R.get hl
  rw [toTree] at hreads
  have hkind := kindOf_of_reads hreads
  rw [step, Heap.get, hget]
  simp only [Option.bind_eq_bind, Option.bind_some, hkind]
  exact new_refines R hh _ (.cons hreads .nil) (by rw [toTree])

lemma step_assign (R : Refines H env) (hh : h < env.length) {h' : Nat} {v : YCPValue}
    (hv : env[h']? = some v) :
    ∃ H', step H (.assign h h') = some H' ∧ Refines H' (env.set h v) := by
  obtain ⟨s, hget, hreads⟩ := R.get hv
  by_cases hne : h = h'
  · subst hne
    refine ⟨H, ?_, ?_⟩
    · rw [step, Heap.get, hget]
      simp
    · rwa [← (List.getElem?_eq_some_iff.mp hv).2, List.set_getElem_self]
  · have hlt : h < H.vars.length := by rw [← R.length_eq]; exact hh
    obtain ⟨H', hassign, hexact, hkept, hvars⟩ := R.exact.assignVar (s := s) hlt (by
      rintro p rfl
      refine .inl (List.mem_of_getElem? (i := h') ?_)
      rw [List.getElem?_set_ne hne, hget])
    refine ⟨H', ?_, refines_set R.exact hexact hkept R.reads hvars hreads⟩
    rw [step, Heap.get, hget]
    simp only [Option.bind_eq_bind, Option.bind_some, if_neg hne, hassign]

lemma step_drop (R : Refines H env) (hh : h < env.length) :
    ∃ H', step H (.drop h) = some H' ∧ Refines H' (env.set h null) := by
  have hlt : h < H.vars.length := by rw [← R.length_eq]; exact hh
  obtain ⟨s, hget⟩ : ∃ s, H.vars[h]? = some s := ⟨_, List.getElem?_eq_getElem hlt⟩
  have hnone : Exact H ((none : Slot).toList ++ []) := R.exact
  obtain ⟨hput, hexact₁⟩ := hnone.putVar hget
  obtain ⟨H', hdestroy, hexact, hkept, hvars, -⟩ := hexact₁.destroy nowhere
  have hkept₁ : Kept nowhere H { H with vars := H.vars.set h none } :=
    ⟨Nat.le_refl _, fun _ _ _ _ _ => rfl⟩
  refine ⟨H', ?_, refines_set R.exact hexact (hkept₁.trans hkept) R.reads hvars ?_⟩
  · rw [step, Heap.get, hget]
    simp only [Option.bind_eq_bind, Option.bind_some, hput, hdestroy]
  · rw [toTree]
    exact readsAs_null.mpr rfl

/-! ### Elements -/

lemma reads_getD {l : List YCPValue} {slots : List Slot}
    (hslots : List.Forall₂ (ReadsAs H) (toTrees l) slots) (i : Nat) :
    ReadsAs H (toTree (l.getD i null)) (slots.getD i none) := by
  induction l generalizing slots i with
  | nil =>
    rw [toTrees, List.forall₂_nil_left_iff] at hslots
    subst hslots
    simp only [List.getD_nil]
    rw [toTree]
    exact readsAs_null.mpr rfl
  | cons v l ih =>
    rw [toTrees] at hslots
    obtain ⟨s, rest, hs, hrest, rfl⟩ := List.forall₂_cons_left_iff.mp hslots
    cases i with
    | zero => exact hs
    | succ i => exact ih hrest i

lemma reads_entry {m : List (YCPValue × YCPValue)} {slots : List Slot}
    (hslots : List.Forall₂ (ReadsAs H) (toEntries m) slots) {i : Nat} {e : YCPValue × YCPValue}
    (he : m[i]? = some e) :
    ∃ s, slots[2 * i + 1]? = some s ∧ ReadsAs H (toTree e.2) s := by
  induction m generalizing slots i with
  | nil => simp at he
  | cons kv m ih =>
    rw [toEntries] at hslots
    obtain ⟨k, rest, -, hrest, rfl⟩ := List.forall₂_cons_left_iff.mp hslots
    obtain ⟨s, rest', hs, hrest', rfl⟩ := List.forall₂_cons_left_iff.mp hrest
    cases i with
    | zero =>
      rw [List.getElem?_cons_zero, Option.some.injEq] at he
      subst he
      exact ⟨s, rfl, hs⟩
    | succ i =>
      rw [List.getElem?_cons_succ] at he
      exact ih hrest' he

lemma fetchSlot_reads {c v : YCPValue} {s : Slot} (hs : ReadsAs H (toTree c) s) {i : Nat}
    (hv : fetchValue c i = some v) :
    ∃ s', fetchSlot H s i = some s' ∧ ReadsAs H (toTree v) s' := by
  cases c with
  | list l =>
    rw [toTree] at hs
    have hkind := kindOf_of_reads hs
    obtain ⟨p, slots, rfl, hshape, hslots⟩ := readsAs_node.mp hs
    obtain ⟨counter, hr⟩ := exists_rep_of_shape hshape
    rw [fetchValue, Option.some.injEq] at hv
    subst hv
    refine ⟨slots.getD i none, ?_, reads_getD hslots i⟩
    simp only [fetchSlot, Option.bind_eq_bind, Option.bind_some, hkind, slotsOf_of_rep hr]
  | map m =>
    rw [toTree] at hs
    have hkind := kindOf_of_reads hs
    obtain ⟨p, slots, rfl, hshape, hslots⟩ := readsAs_node.mp hs
    obtain ⟨counter, hr⟩ := exists_rep_of_shape hshape
    rw [fetchValue, Option.map_eq_some_iff] at hv
    obtain ⟨e, he, rfl⟩ := hv
    obtain ⟨s', hget, hreads⟩ := reads_entry hslots he
    refine ⟨s', ?_, hreads⟩
    simp only [fetchSlot, Option.bind_eq_bind, Option.bind_some, hkind, slotsOf_of_rep hr, hget]
  | term n l =>
    rw [toTree] at hs
    have hkind := kindOf_of_reads hs
    obtain ⟨p, slots, rfl, hshape, hslots⟩ := readsAs_node.mp hs
    obtain ⟨counter, hr⟩ := exists_rep_of_shape hshape
    obtain ⟨s', rest, hs', -, rfl⟩ := List.forall₂_cons_left_iff.mp hslots
    rw [fetchValue] at hv
    split at hv
    next hi =>
      rw [Option.some.injEq] at hv
      subst hv hi
      refine ⟨s', ?_, by rw [toTree]; exact hs'⟩
      simp [fetchSlot, hkind, slotsOf_of_rep hr]
    next => cases hv
  | _ => simp [fetchValue] at hv

lemma step_fetch (R : Refines H env) (hh : h < env.length) {c i : Nat} {vc v : YCPValue}
    (hc : env[c]? = some vc) (hv : fetchValue vc i = some v) :
    ∃ H', step H (.fetch h c i) = some H' ∧ Refines H' (env.set h v) := by
  obtain ⟨s, hget, hreads⟩ := R.get hc
  obtain ⟨s', hfetch, hreads'⟩ := fetchSlot_reads hreads hv
  obtain ⟨H', hassign, R'⟩ := assignTemporary_refines R hh hreads'
  refine ⟨H', ?_, R'⟩
  rw [step, Heap.get, hget]
  simp only [Option.bind_eq_bind, Option.bind_some, hfetch, hassign]

/-! ### A container that is being changed -/

/-- The representation `p` under change and that of the handle, `o`, which is `p` or a term with it. -/
def Inside (o p : Ptr) : Ptr → Prop := fun q => q = o ∨ q = p

/-- The handle `h` is the only way to `o` and to `p`; the slots of `p` read as `ts`, and the other
handles as their values. -/
structure Open (H : YHeap) (env : List YCPValue) (h : Nat) (o p : Ptr) (name : Text) (kind : RepKind)
    (ts : List (RepTree RepKind)) (pending : List Ptr) : Prop where
  exact : Exact H pending
  top : H.vars[h]? = some (some o)
  link : o ≠ p → H.shape o = some (.term name, [some p])
  vars_apart : ∀ q, Inside o p q → some q ∉ H.vars.set h none
  slots_apart : ∀ q q', ¬ Inside o p q ∨ q = p → Inside o p q' → some q' ∉ H.slotsOf q
  slots : ∃ slots, H.shape p = some (kind, slots) ∧ List.Forall₂ (ReadsAs H) ts slots
  length_eq : env.length = H.vars.length
  others : ∀ j v s, j ≠ h → env[j]? = some v → H.vars[j]? = some s → ReadsAs H (toTree v) s

variable {o p : Ptr} {name : Text} {kind : RepKind} {ts : List (RepTree RepKind)} {pending : List Ptr}

lemma Open.rep (O : Open H env h o p name kind ts pending) :
    ∃ r, H.rep p = some r ∧ r.label = kind ∧ List.Forall₂ (ReadsAs H) ts r.slots := by
  obtain ⟨slots, hshape, hslots⟩ := O.slots
  obtain ⟨counter, hr⟩ := exists_rep_of_shape hshape
  exact ⟨_, hr, rfl, hslots⟩

/-- Another handle does not lead inside. -/
lemma Open.apart (O : Open H env h o p name kind ts pending) {j : Nat} {s : Slot} (hj : j ≠ h)
    (hs : H.vars[j]? = some s) : ∀ q, s = some q → ¬ Inside o p q := by
  rintro q rfl hq
  refine O.vars_apart q hq (List.mem_of_getElem? (i := j) ?_)
  rw [List.getElem?_set_ne (Ne.symm hj), hs]

lemma Open.sealed (O : Open H env h o p name kind ts pending) : Sealed (Inside o p) H :=
  fun q q' hq hmem hq' => O.slots_apart q q' (.inl hq) hq' hmem

/-- What is held by another handle, or in a slot of `p`, reads as before after a change of `p`. -/
lemma Open.reads {pending' : List Ptr} (O : Open H env h o p name kind ts pending)
    (hexact : Exact H' pending') (hkept : Kept (· = p) H H') {t : RepTree RepKind} {s : Slot}
    (hlive : Live H' s) (hs : ∀ q, s = some q → ¬ Inside o p q) (ht : ReadsAs H t s) : ReadsAs H' t s :=
  (hkept.mono fun _ => .inr).reads O.exact hexact O.sealed hlive hs ht

/-- The changes that the methods make. -/
lemma Open.edit {pending' : List Ptr} (O : Open H env h o p name kind ts pending)
    (hexact : Exact H' pending') (hkept : Kept (· = p) H H') (hvars : H'.vars = H.vars)
    (hnew : ∀ q, H.next ≤ q → H'.slotsOf q = []) {slots' : List Slot} {ts' : List (RepTree RepKind)}
    (hshape : H'.shape p = some (kind, slots')) (hreads : List.Forall₂ (ReadsAs H) ts' slots')
    (hapart : ∀ q, Inside o p q → some q ∉ slots') : Open H' env h o p name kind ts' pending' := by
  obtain ⟨counter, hr⟩ := exists_rep_of_shape hshape
  have hlive : ∀ s ∈ H'.vars, Live H' s := by
    rintro s hmem q rfl
    exact hexact.live_var hmem
  refine ⟨hexact, by rw [hvars]; exact O.top, fun hne => ?_, by rw [hvars]; exact O.vars_apart, ?_,
    ⟨slots', hshape, ?_⟩, by rw [hvars]; exact O.length_eq, ?_⟩
  · obtain ⟨r', hr'⟩ := hexact.live_var (p := o) (by
      rw [hvars]
      exact List.mem_of_getElem? O.top)
    obtain ⟨r, hro⟩ := O.exact.live_var (List.mem_of_getElem? O.top)
    rw [hkept.shape o r' (O.exact.lt_next hro) hne hr']
    exact O.link hne
  · intro q q' hq hq' hmem
    by_cases hqp : q = p
    · subst hqp
      rw [slotsOf_of_rep hr] at hmem
      exact hapart q' hq' hmem
    · by_cases hlt : q < H.next
      · cases hrq : H'.rep q with
        | none => simp [slotsOf, hrq] at hmem
        | some r' =>
          rw [slotsOf_eq_of_shape (hkept.shape q r' hlt hqp hrq)] at hmem
          exact O.slots_apart q q' hq hq' hmem
      · rw [hnew q (Nat.le_of_not_lt hlt)] at hmem
        simp at hmem
  · refine forall₂_imp_mem hreads fun t s hs ht => O.reads hexact hkept ?_ ?_ ht
    · rintro q rfl
      exact hexact.live_slot (by rw [slotsOf_of_rep hr]; exact hs)
    · rintro q rfl hq
      exact hapart q hq hs
  · intro j v s hj hv hs
    have hs' := hs
    rw [hvars] at hs'
    exact O.reads hexact hkept (hlive s (List.mem_of_getElem? hs)) (O.apart hj hs') (O.others j v s hj hv hs')

/-- The new value of the handle, when the change is done. -/
lemma Open.close (O : Open H env h o p name kind ts []) {v : YCPValue}
    (hv : toTree v = if o = p then .node kind ts else .node (.term name) [.node kind ts]) :
    Refines H (env.set h v) := by
  refine ⟨O.exact, ?_⟩
  rw [List.forall₂_iff_get]
  refine ⟨by simpa using O.length_eq, fun j h₁ h₂ => ?_⟩
  have hj : j < env.length := by simpa using h₁
  have hget : H.vars[j]? = some H.vars[j] := List.getElem?_eq_getElem h₂
  simp only [List.get_eq_getElem, List.getElem_set]
  split
  next heq =>
    subst heq
    have htop := O.top
    rw [hget, Option.some.injEq] at htop
    obtain ⟨slots, hshape, hslots⟩ := O.slots
    have hp : ReadsAs H (.node kind ts) (some p) := readsAs_node.mpr ⟨p, slots, rfl, hshape, hslots⟩
    rw [htop, hv]
    split
    next heq => rwa [heq]
    next hne => exact readsAs_node.mpr ⟨o, _, rfl, O.link hne, .cons hp .nil⟩
  next hne =>
    exact O.others j env[j] H.vars[j] (fun heq => hne heq.symm) (List.getElem?_eq_getElem hj) hget

/-- `writeCopy` through a handle of the program. -/
lemma open_var (R : Refines H env) {v : YCPValue} (hv : env[h]? = some v) (hts : toTree v = .node kind ts)
    (name : Text) :
    ∃ p H', H.writeCopy (.var h) = some (p, H') ∧ Open H' env h p p name kind ts [] := by
  obtain ⟨s, hget, hreads⟩ := R.get hv
  rw [hts] at hreads
  obtain ⟨p, slots, rfl, hshape, hslots⟩ := readsAs_node.mp hreads
  obtain ⟨counter, hr⟩ := exists_rep_of_shape hshape
  obtain ⟨q, H', hcopy, hexact, hkept, hvars, hrq⟩ := R.exact.writeCopyVar hget hr
  have hlt : h < H.vars.length := (List.getElem?_eq_some_iff.mp hget).1
  have htop : H'.vars[h]? = some (some q) := by rw [hvars, List.getElem?_set_self hlt]
  obtain ⟨hsole, hsole'⟩ := hexact.sole_var htop hrq rfl
  have hinside : ∀ q', Inside q q q' → q' = q := fun q' hq' => hq'.elim id id
  refine ⟨q, H', hcopy, hexact, htop, fun hne => absurd rfl hne, ?_, ?_, ⟨slots, shape_of_rep hrq, ?_⟩, ?_,
    ?_⟩
  · intro q' hq'
    rw [hinside q' hq']
    exact hsole
  · intro q₁ q' _ hq'
    rw [hinside q' hq']
    exact hsole' q₁
  · refine forall₂_imp_mem hslots fun t s hs ht => ?_
    refine hkept.reads R.exact hexact (sealed_nowhere H) ?_ (fun _ _ hn => hn) ht
    rintro q' rfl
    exact hexact.live_slot (by rw [slotsOf_of_rep hrq]; exact hs)
  · rw [hvars, List.length_set]
    exact R.length_eq
  · intro j v' s' hj hv' hs'
    have hlive : Live H' s' := by
      rintro q' rfl
      exact hexact.live_var (List.mem_of_getElem? hs')
    rw [hvars, List.getElem?_set_ne (Ne.symm hj)] at hs'
    obtain ⟨s'', hget'', hreads''⟩ := R.get hv'
    rw [hs', Option.some.injEq] at hget''
    subst hget''
    exact hkept.reads R.exact hexact (sealed_nowhere H) hlive (fun _ _ hn => hn) hreads''

/-- The second `writeCopy`, through the handle that a term has. -/
lemma open_term (R : Refines H env) {n : Text} {l : List YCPValue} (hv : env[h]? = some (term n l)) :
    ∃ o H₁ p H', H.writeCopy (.var h) = some (o, H₁) ∧ H₁.writeCopy (.slot o 0) = some (p, H') ∧ o ≠ p ∧
      Open H' env h o p n .list (toTrees l) [] := by
  obtain ⟨o, H₁, hcopy, O⟩ := open_var R hv (by rw [toTree]) n
  obtain ⟨ro, hro, hlabel, hslots⟩ := O.rep
  obtain ⟨s, rest, hs, hrest, hcons⟩ := List.forall₂_cons_left_iff.mp hslots
  rw [List.forall₂_nil_left_iff] at hrest
  subst hrest
  obtain ⟨p, slots, rfl, hshape, hlist⟩ := readsAs_node.mp hs
  obtain ⟨counter, hr⟩ := exists_rep_of_shape hshape
  have hop : o ≠ p := by
    rintro rfl
    refine O.slots_apart o o (.inr rfl) (.inl rfl) ?_
    rw [slotsOf_of_rep hro, hcons]
    simp
  obtain ⟨q, H', hcopy', hexact, hkept, hvars, hshape', hrq, hqo, hnew⟩ :=
    O.exact.writeCopySlot hro (i := 0) (by rw [hcons]; rfl) hr hop
  rw [hlabel, hcons] at hshape'
  obtain ⟨counter', hro'⟩ := exists_rep_of_shape hshape'
  have hsole := hexact.sole_slot (o := o) (by rw [slotsOf_of_rep hro']; simp) hrq rfl
  have hsealed : Sealed (· = o) H₁ := fun q₁ q' hq₁ hmem hq' =>
    O.slots_apart q₁ q' (.inl fun hin => hq₁ (hin.elim id id)) (.inl hq') hmem
  have hlive : ∀ s ∈ H'.vars, Live H' s := by
    rintro s hmem q' rfl
    exact hexact.live_var hmem
  have hslots_o : ∀ q₁, some o ∉ H₁.slotsOf q₁ := fun q₁ => by
    by_cases hq₁ : q₁ = o
    · exact O.slots_apart q₁ o (.inr hq₁) (.inl rfl)
    · exact O.slots_apart q₁ o (.inl fun hin => hq₁ (hin.elim id id)) (.inl rfl)
  refine ⟨o, H₁, q, H', hcopy, hcopy', Ne.symm hqo, hexact, ?_, fun _ => hshape', ?_, ?_,
    ⟨slots, shape_of_rep hrq, ?_⟩, ?_, ?_⟩
  · rw [hvars]
    exact O.top
  · rintro q' (rfl | rfl)
    · rw [hvars]
      exact O.vars_apart q' (.inl rfl)
    · intro hmem
      rcases List.mem_or_eq_of_mem_set hmem with hmem | hmem
      · exact hsole.1 hmem
      · cases hmem
  · rintro q₁ q' hq₁ (rfl | rfl) hmem
    · by_cases hq : q₁ = q
      · subst hq
        rw [slotsOf_of_rep hrq] at hmem
        exact hslots_o p (by rw [slotsOf_of_rep hr]; exact hmem)
      · have hq₁o : q₁ ≠ q' := by
          rintro rfl
          exact hq₁.elim (fun hn => hn (.inl rfl)) hq
        by_cases hlt : q₁ < H₁.next
        · cases hrq₁ : H'.rep q₁ with
          | none => simp [slotsOf, hrq₁] at hmem
          | some r' =>
            rw [slotsOf_eq_of_shape (hkept.shape q₁ r' hlt hq₁o hrq₁)] at hmem
            exact hslots_o q₁ hmem
        · rw [hnew q₁ (Nat.le_of_not_lt hlt) hq] at hmem
          simp at hmem
    · have hq₁o : q₁ ≠ o := by
        rintro rfl
        exact hq₁.elim (fun hn => hn (.inl rfl)) (fun heq => hqo heq.symm)
      exact hsole.2 q₁ hq₁o hmem
  · refine forall₂_imp_mem hlist fun t s hs ht => ?_
    refine hkept.reads O.exact hexact hsealed ?_ ?_ ht
    · rintro q' rfl
      exact hexact.live_slot (by rw [slotsOf_of_rep hrq]; exact hs)
    · rintro q' rfl rfl
      exact hslots_o p (by rw [slotsOf_of_rep hr]; exact hs)
  · rw [hvars]
    exact O.length_eq
  · intro j v' s' hj hv' hs'
    have hlive' := hlive s' (List.mem_of_getElem? hs')
    rw [hvars] at hs'
    exact hkept.reads O.exact hexact hsealed hlive' (fun q' hq' heq => O.apart hj hs' q' hq' (.inl heq))
      (O.others j v' s' hj hv' hs')

/-! ### The methods of a list -/

lemma count_singleton (s : Slot) (q : Ptr) : [s].count (some q) = s.toList.count q := by
  cases s <;> simp [List.count_singleton]

/-- The slots of `p` are never inside. -/
lemma Open.slots_outside (O : Open H env h o p name kind ts pending) {r : Rep RepKind}
    (hr : H.rep p = some r) {q : Ptr} (hq : Inside o p q) : some q ∉ r.slots := by
  rw [← slotsOf_of_rep hr]
  exact O.slots_apart p q (.inr rfl) hq

lemma Open.clone {s : Slot} (O : Open H env h o p name kind ts pending) (hs : Live H s) :
    ∃ H', H.clone s = some H' ∧ Open H' env h o p name kind ts (s.toList ++ pending) ∧ Same H H' := by
  obtain ⟨H', hclone, hexact, hsame⟩ := O.exact.clone hs
  obtain ⟨r, hr, hlabel, hslots⟩ := O.rep
  refine ⟨H', hclone, ?_, hsame⟩
  refine O.edit hexact (hsame.kept _) hsame.vars (fun q hq => hexact.slotsOf_eq_nil (hsame.next ▸ hq)) ?_
    hslots fun q hq => O.slots_outside hr hq
  rw [hsame.shape, shape_of_rep hr, hlabel]

/-- The slots of `p` after a change, with the pointers that come and go. -/
lemma Open.setSlots (O : Open H env h o p name kind ts pending) {r : Rep RepKind}
    (hr : H.rep p = some r) (slots' : List Slot) (pending' : List Ptr) {ts' : List (RepTree RepKind)}
    (hcount : ∀ q, slots'.count (some q) + pending'.count q = r.slots.count (some q) + pending.count q)
    (hreads : List.Forall₂ (ReadsAs H) ts' slots') (hapart : ∀ q, Inside o p q → some q ∉ slots') :
    Open (H.setRep p (some { r with slots := slots' })) env h o p name kind ts' pending' := by
  have hexact := O.exact.setSlots hr hcount
  have hlabel : r.label = kind := by
    obtain ⟨r', hr', hlabel, -⟩ := O.rep
    rw [hr, Option.some.injEq] at hr'
    rw [hr', hlabel]
  refine O.edit hexact ⟨Nat.le_refl _, fun q r' _ hne _ => ?_⟩ rfl (fun q hq => hexact.slotsOf_eq_nil hq) ?_
    hreads hapart
  · rw [shape_setSlots, if_neg hne]
  · rw [shape_setSlots, if_pos rfl, hlabel]

lemma Open.listRepAdd {s : Slot} {t : RepTree RepKind} (O : Open H env h o p name kind ts pending)
    (ht : ReadsAs H t s) (hs : ∀ q, s = some q → ¬ Inside o p q) :
    ∃ H', listRepAdd H p s = some H' ∧ Open H' env h o p name kind (ts ++ [t]) pending ∧
      H'.vars = H.vars := by
  obtain ⟨H₁, hclone, O₁, hsame⟩ := O.clone ht.live
  obtain ⟨r, hr, -, hslots⟩ := O₁.rep
  have ht₁ : ReadsAs H₁ t s := (hsame.kept nowhere).reads O.exact O₁.exact (sealed_nowhere H)
    (hsame.live ht.live) (fun _ _ hn => hn) ht
  refine ⟨_, ?_, O₁.setSlots hr (r.slots ++ [s]) _ ?_ ?_ ?_, hsame.vars⟩
  · rw [Handles.listRepAdd, hclone]
    simp only [Option.bind_eq_bind, Option.bind_some, hr]
  · intro q
    rw [List.count_append, count_singleton, List.count_append]
    omega
  · exact List.rel_append hslots (.cons ht₁ .nil)
  · intro q hq hmem
    rcases List.mem_append.mp hmem with hmem | hmem
    · exact O₁.slots_outside hr hq hmem
    · exact hs q (List.mem_singleton.mp hmem).symm hq

lemma Open.anchored (O : Open H env h o p name kind ts pending) {r : Rep RepKind} (slots : List Slot) :
    Anchored (H.setRep p (some { r with slots := slots })) p := by
  have htop : some o ∈ H.vars := List.mem_of_getElem? O.top
  by_cases hop : o = p
  · subst hop
    exact .var htop
  · refine .slot (.var htop) ?_
    obtain ⟨counter, hro⟩ := exists_rep_of_shape (O.link hop)
    rw [slotsOf_setRep, if_neg hop, slotsOf_of_rep hro]
    exact List.mem_singleton.mpr rfl

lemma Open.destroy {s : Slot} (O : Open H env h o p name kind ts (s.toList ++ pending)) :
    ∃ H', H.destroy s = some H' ∧ Open H' env h o p name kind ts pending ∧ H'.vars = H.vars := by
  obtain ⟨H', hdestroy, hexact, hkept, hvars, hnext⟩ := O.exact.destroy nowhere
  obtain ⟨r, hr, hlabel, hslots⟩ := O.rep
  have hself : H.setRep p (some { r with slots := r.slots }) = H := by
    rw [setRep, ← hr, Function.update_eq_self]
  have hanchored : Anchored H p := hself ▸ O.anchored (r := r) r.slots
  obtain ⟨r', hr'⟩ := (hanchored.kept O.exact hexact hkept hvars).live hexact
  refine ⟨H', hdestroy, O.edit hexact (hkept.mono fun _ hn => hn.elim) hvars
    (fun q hq => hexact.slotsOf_eq_nil (hnext ▸ hq)) ?_ hslots fun q hq => O.slots_outside hr hq, hvars⟩
  rw [hkept.shape p r' (O.exact.lt_next hr) (fun hn => hn) hr', shape_of_rep hr, hlabel]

/-- A new value without slots, which nothing points to yet. -/
lemma Open.alloc (O : Open H env h o p name kind ts []) (v : YCPValue) :
    ∃ H', H.alloc (.atom v) [] = some (H.next, H') ∧ Open H' env h o p name kind ts [] ∧
      H'.vars = H.vars ∧ ReadsAs H' (.node (.atom v) []) (some H.next) ∧ ¬ Inside o p H.next := by
  obtain ⟨H', halloc, hexact, hvars, hnext, hrep, hshape⟩ := O.exact.alloc (.atom v)
    fun s (hs : s ∈ ([] : List Slot)) => absurd hs List.not_mem_nil
  obtain ⟨r, hr, hlabel, hslots⟩ := O.rep
  obtain ⟨ro, hro⟩ := O.exact.live_var (List.mem_of_getElem? O.top)
  have hp : p ≠ H.next := Nat.ne_of_lt (O.exact.lt_next hr)
  have ho : o ≠ H.next := Nat.ne_of_lt (O.exact.lt_next hro)
  refine ⟨H', halloc, ?_, hvars, readsAs_node.mpr ⟨H.next, [], rfl, shape_of_rep hrep, .nil⟩,
    fun hin => hin.elim (fun heq => ho heq.symm) fun heq => hp heq.symm⟩
  refine O.edit hexact ⟨hnext ▸ Nat.le_succ _, fun q _ hq _ _ => hshape q (Nat.ne_of_lt hq)⟩ hvars ?_ ?_
    hslots fun q hq => O.slots_outside hr hq
  · intro q hq
    by_cases heq : q = H.next
    · rw [heq, slotsOf_of_rep hrep]
    · exact hexact.slotsOf_eq_nil (hnext ▸ Nat.lt_of_le_of_ne hq (Ne.symm heq))
  · rw [hshape p hp, shape_of_rep hr, hlabel]

lemma Open.listRepPad (O : Open H env h o p name kind ts []) (n : Nat) :
    ∃ H', listRepPad p n H = some H' ∧
      Open H' env h o p name kind (ts ++ List.replicate n (toTree void)) [] ∧ H'.vars = H.vars := by
  induction n generalizing H ts with
  | zero => exact ⟨H, rfl, by simpa using O, rfl⟩
  | succ n ih =>
    obtain ⟨H₁, halloc, O₁, hvars₁, hreads₁, hnext⟩ := O.alloc void
    obtain ⟨H₂, hclone, O₂, hsame⟩ := O₁.clone hreads₁.live
    have hreads₂ : ReadsAs H₂ (.node (.atom void) []) (some H.next) :=
      (hsame.kept nowhere).reads O₁.exact O₂.exact (sealed_nowhere H₁) (hsame.live hreads₁.live)
        (fun _ _ hn => hn) hreads₁
    obtain ⟨H₃, hadd, O₃, hvars₃⟩ := O₂.listRepAdd hreads₂ (by
      rintro q ⟨⟩
      exact hnext)
    obtain ⟨H₄, hdestroy, O₄, hvars₄⟩ := O₃.destroy
    obtain ⟨H', hpad, O', hvars'⟩ := ih O₄
    refine ⟨H', ?_, ?_, ?_⟩
    · rw [Handles.listRepPad, halloc]
      simp only [Option.bind_eq_bind, Option.bind_some, hclone, hadd, hdestroy, hpad]
    · rw [List.append_assoc] at O'
      rw [List.replicate_succ, toTree] at *
      exact O'
    · rw [hvars', hvars₄, hvars₃, hsame.vars, hvars₁]

/-- Assignment to a slot of `p` from another handle. -/
lemma Open.assignSlot {j i : Nat} {v : YCPValue} {s : Slot} (O : Open H env h o p name kind ts [])
    (hj : j ≠ h) (hv : env[j]? = some v) (hs : H.vars[j]? = some s) (hi : i < ts.length) :
    ∃ H', H.assign (.slot p i) s = some H' ∧ Open H' env h o p name kind (ts.set i (toTree v)) [] ∧
      H'.vars = H.vars := by
  obtain ⟨r, hr, hlabel, hslots⟩ := O.rep
  have hi' : i < r.slots.length := by rw [← hslots.length_eq]; exact hi
  obtain ⟨H', hassign, hexact, hkept, hvars, hnext, hshape⟩ :=
    O.exact.assignSlot (s := s) hr hi' (O.anchored _) (by
      rintro q rfl
      exact .inl (List.mem_of_getElem? hs))
  rw [hlabel] at hshape
  refine ⟨H', hassign, ?_, hvars⟩
  refine O.edit hexact hkept hvars (fun q hq => hexact.slotsOf_eq_nil (hnext ▸ hq)) hshape ?_ ?_
  · have hreads := O.others j v s hj hv hs
    rw [List.forall₂_iff_get] at hslots ⊢
    refine ⟨by simpa using hslots.1, fun k h₁ h₂ => ?_⟩
    simp only [List.get_eq_getElem, List.getElem_set]
    split
    · exact hreads
    · exact hslots.2 k (by simpa using h₁) (by simpa using h₂)
  · intro q hq hmem
    rcases List.mem_or_eq_of_mem_set hmem with hmem | hmem
    · exact O.slots_outside hr hq hmem
    · exact O.apart hj hs q hmem.symm hq

lemma Open.listRepSet {j : Nat} {v : YCPValue} {s : Slot} {l : List YCPValue}
    (O : Open H env h o p name kind (toTrees l) []) (i : Int) (hj : i < 0 ∨ j ≠ h)
    (hv : env[j]? = some v) (hs : H.vars[j]? = some s) :
    ∃ H', listRepSet H p i s = some H' ∧ Open H' env h o p name kind (toTrees (listSet l i v)) [] := by
  by_cases hi : i < 0
  · rw [Handles.listRepSet, listSet, if_pos hi, if_pos hi]
    exact ⟨H, rfl, O⟩
  · obtain ⟨r, hr, -, hslots⟩ := O.rep
    have hlength : (H.slotsOf p).length = l.length := by
      rw [slotsOf_of_rep hr, ← hslots.length_eq, toTrees_eq_map, List.length_map]
    obtain ⟨H₁, hpad, O₁, hvars₁⟩ := O.listRepPad (i.toNat + 1 - (H.slotsOf p).length)
    rw [← hvars₁] at hs
    rw [hlength] at hpad O₁
    obtain ⟨H', hassign, O', -⟩ := O₁.assignSlot (i := i.toNat) (hj.resolve_left hi) hv hs (by
      rw [toTrees_eq_map]
      simp only [List.length_append, List.length_map, List.length_replicate]
      omega)
    refine ⟨H', ?_, ?_⟩
    · rw [Handles.listRepSet, if_neg hi, hlength]
      simp only [Option.bind_eq_bind, Option.bind_some, hpad, hassign]
    · rw [listSet, if_neg hi]
      rw [toTrees_eq_map] at O' ⊢
      rwa [List.map_set, List.map_append, List.map_replicate]

lemma forall₂_eraseIdx {α β : Type} {R : α → β → Prop} {l : List α} {l' : List β}
    (hl : List.Forall₂ R l l') (n : Nat) : List.Forall₂ R (l.eraseIdx n) (l'.eraseIdx n) := by
  rw [List.eraseIdx_eq_take_drop_succ, List.eraseIdx_eq_take_drop_succ]
  exact List.rel_append (List.forall₂_take n hl) (List.forall₂_drop (n + 1) hl)

lemma count_eraseIdx {slots : List Slot} {n : Nat} {old : Slot} (hn : slots[n]? = some old) (q : Ptr) :
    (slots.eraseIdx n).count (some q) + old.toList.count q = slots.count (some q) := by
  obtain ⟨hlt, hget⟩ := List.getElem?_eq_some_iff.mp hn
  have hsplit : slots.count (some q) =
      (slots.take n).count (some q) + ([old].count (some q) + (slots.drop (n + 1)).count (some q)) := by
    rw [← hget, ← List.count_append, ← List.count_append, List.singleton_append,
      List.getElem_cons_drop, List.take_append_drop]
  rw [List.eraseIdx_eq_take_drop_succ, List.count_append, ← count_singleton]
  omega

lemma Open.listRepRemove {l : List YCPValue} (O : Open H env h o p name kind (toTrees l) []) {n : Int}
    (hn : ¬ (n < 0 ∨ (l.length : Int) ≤ n)) :
    ∃ H', listRepRemove H p n = some H' ∧
      Open H' env h o p name kind (toTrees (l.eraseIdx n.toNat)) [] := by
  obtain ⟨r, hr, -, hslots⟩ := O.rep
  have hlength : r.slots.length = l.length := by
    rw [← hslots.length_eq, toTrees_eq_map, List.length_map]
  have hlt : n.toNat < r.slots.length := by omega
  obtain ⟨old, hold⟩ : ∃ old, r.slots[n.toNat]? = some old := ⟨_, List.getElem?_eq_getElem hlt⟩
  have hreads := forall₂_eraseIdx hslots n.toNat
  have O₁ := O.setSlots hr (r.slots.eraseIdx n.toNat) (old.toList ++ []) (by
    intro q
    have hcount := count_eraseIdx hold q
    rw [List.append_nil, List.count_nil]
    omega) hreads fun q hq hmem => O.slots_outside hr hq (List.mem_of_mem_eraseIdx hmem)
  obtain ⟨H', hdestroy, O', -⟩ := O₁.destroy
  refine ⟨H', ?_, ?_⟩
  · rw [Handles.listRepRemove, hr]
    simp only [Option.bind_eq_bind, Option.bind_some, hlength, if_neg hn, hold, hdestroy]
  · rw [toTrees_eq_map] at O' ⊢
    rwa [List.eraseIdx_map] at O'

/-! ### The methods of a map -/

/-- The number of entries before the lower bound of a key. -/
def bound (key : YCPValue) : List (YCPValue × YCPValue) → Nat
  | [] => 0
  | (k, _) :: m => if keyLess k key then bound key m + 1 else 0

/-- Whether the key is there. -/
def found (key : YCPValue) (m : List (YCPValue × YCPValue)) : Bool :=
  m[bound key m]?.any fun e => !keyLess key e.1

lemma bound_le (key : YCPValue) (m : List (YCPValue × YCPValue)) : bound key m ≤ m.length := by
  induction m with
  | nil => simp [bound]
  | cons e m ih =>
    rw [bound]
    split
    · exact Nat.succ_le_succ ih
    · exact Nat.zero_le _

lemma mapInsert_eq (key value : YCPValue) (m : List (YCPValue × YCPValue)) :
    toEntries (mapInsert key value m) =
      if found key m then (toEntries m).set (2 * bound key m + 1) (toTree value)
      else (toEntries m).take (2 * bound key m) ++
        (.node (.atom key) [] :: toTree value :: (toEntries m).drop (2 * bound key m)) := by
  induction m with
  | nil => simp [mapInsert, found, bound, toEntries]
  | cons e m ih =>
    obtain ⟨k, v⟩ := e
    rw [mapInsert, found, bound]
    by_cases hless : keyLess k key = true
    · rw [found] at ih
      simp only [hless, if_true, List.getElem?_cons_succ, toEntries, ih, Nat.mul_add, Nat.mul_one]
      split
      · rw [Nat.add_right_comm]
        rfl
      · rfl
    · simp only [hless, Bool.false_eq_true, if_false, List.getElem?_cons_zero, Option.any_some]
      cases hkey : keyLess key k <;> simp [toEntries]

lemma mapErase_eq (key : YCPValue) (m : List (YCPValue × YCPValue)) :
    toEntries (mapErase key m) =
      if found key m then (toEntries m).take (2 * bound key m) ++ (toEntries m).drop (2 * bound key m + 2)
      else toEntries m := by
  induction m with
  | nil => simp [mapErase, found, toEntries]
  | cons e m ih =>
    obtain ⟨k, v⟩ := e
    rw [mapErase, found, bound]
    by_cases hless : keyLess k key = true
    · rw [found] at ih
      simp only [hless, if_true, List.getElem?_cons_succ, toEntries, ih, Nat.mul_add, Nat.mul_one]
      split
      · rfl
      · rfl
    · simp only [hless, Bool.false_eq_true, if_false, List.getElem?_cons_zero, Option.any_some]
      cases hkey : keyLess key k <;> simp [toEntries]

lemma length_toEntries (m : List (YCPValue × YCPValue)) : (toEntries m).length = 2 * m.length := by
  induction m with
  | nil => rfl
  | cons e m ih =>
    rw [toEntries, List.length_cons, List.length_cons, ih, List.length_cons]
    omega

lemma atomOf_of_reads {v : YCPValue} {s : Slot} (hs : ReadsAs H (.node (.atom v) []) s) :
    atomOf H s = some v := by
  rw [atomOf, kindOf_of_reads hs]

lemma lowerBound_eq (key : YCPValue) {m : List (YCPValue × YCPValue)} {slots : List Slot}
    (hslots : List.Forall₂ (ReadsAs H) (toEntries m) slots) :
    lowerBound H key slots = some (2 * bound key m) := by
  induction m generalizing slots with
  | nil =>
    rw [toEntries, List.forall₂_nil_left_iff] at hslots
    subst hslots
    rfl
  | cons e m ih =>
    rw [toEntries] at hslots
    obtain ⟨k, rest, hk, hrest, rfl⟩ := List.forall₂_cons_left_iff.mp hslots
    obtain ⟨v, rest', -, hrest', rfl⟩ := List.forall₂_cons_left_iff.mp hrest
    rw [lowerBound, atomOf_of_reads hk, bound, ih hrest']
    simp only [Option.bind_eq_bind, Option.bind_some, Option.map_some]
    split <;> rfl

lemma findKey_eq (key : YCPValue) {m : List (YCPValue × YCPValue)} {slots : List Slot}
    (hslots : List.Forall₂ (ReadsAs H) (toEntries m) slots) :
    findKey H key slots (2 * bound key m) = some (found key m) := by
  induction m generalizing slots with
  | nil =>
    rw [toEntries, List.forall₂_nil_left_iff] at hslots
    subst hslots
    rfl
  | cons e m ih =>
    rw [toEntries] at hslots
    obtain ⟨k, rest, hk, hrest, rfl⟩ := List.forall₂_cons_left_iff.mp hslots
    obtain ⟨v, rest', -, hrest', rfl⟩ := List.forall₂_cons_left_iff.mp hrest
    rw [bound, found, bound]
    by_cases hless : keyLess e.1 key = true
    · simp only [hless, if_true, List.getElem?_cons_succ, Nat.mul_add, Nat.mul_one]
      exact ih hrest'
    · simp only [hless, Bool.false_eq_true, if_false, List.getElem?_cons_zero, Option.any_some, findKey,
        Nat.mul_zero, atomOf_of_reads hk]
      rfl

lemma isAtom_of_isMapKey {k : YCPValue} (hk : k.isMapKey = true) : k.isAtom = true := by
  cases k <;> simp [isMapKey] at hk <;> rfl

lemma checkKey_eq {k : YCPValue} {s : Slot} (hs : ReadsAs H (toTree k) s) (hk : k.isNull = false) :
    checkKey H s = some (if k.isMapKey then some k else none) := by
  by_cases hatom : k.isAtom = true
  · rw [toTree_of_isAtom hatom] at hs
    simp only [checkKey, kindOf_of_reads hs, Option.bind_eq_bind, Option.bind_some]
  · have hkey : k.isMapKey = false := by
      rw [← Bool.not_eq_true]
      exact fun hkey => hatom (isAtom_of_isMapKey hkey)
    rw [hkey]
    cases k with
    | null => simp [isNull] at hk
    | list l =>
      rw [toTree] at hs
      simp [checkKey, kindOf_of_reads hs]
    | term n l =>
      rw [toTree] at hs
      simp [checkKey, kindOf_of_reads hs]
    | map m =>
      rw [toTree] at hs
      simp [checkKey, kindOf_of_reads hs]
    | _ => exact absurd rfl hatom

lemma count_cons_cons (s s' : Slot) (slots : List Slot) (q : Ptr) :
    (s :: s' :: slots).count (some q) = s.toList.count q + (s'.toList.count q + slots.count (some q)) := by
  rw [← count_singleton, ← count_singleton, ← List.count_append, ← List.count_append]
  rfl

lemma take_cons_cons_drop {slots : List Slot} {i : Nat} {a b : Slot} (ha : slots[i]? = some a)
    (hb : slots[i + 1]? = some b) : slots = slots.take i ++ a :: b :: slots.drop (i + 2) := by
  obtain ⟨hi, rfl⟩ := List.getElem?_eq_some_iff.mp ha
  obtain ⟨hi', rfl⟩ := List.getElem?_eq_some_iff.mp hb
  rw [← List.drop_eq_getElem_cons hi', ← List.drop_eq_getElem_cons hi, List.take_append_drop]

lemma Open.mapRepAdd {jk jv : Nat} {k v : YCPValue} {ks vs : Slot} {m : List (YCPValue × YCPValue)}
    (O : Open H env h o p name .map (toEntries m) []) (hkey : k.isMapKey = true) (hjk : jk ≠ h)
    (hk : env[jk]? = some k) (hks : H.vars[jk]? = some ks) (hjv : jv ≠ h) (hv : env[jv]? = some v)
    (hvs : H.vars[jv]? = some vs) :
    ∃ H', mapRepAdd H p ks vs = some H' ∧
      Open H' env h o p name .map (toEntries (mapInsert k v m)) [] := by
  obtain ⟨r, hr, -, hslots⟩ := O.rep
  have hkreads := O.others jk k ks hjk hk hks
  have hvreads := O.others jv v vs hjv hv hvs
  have hcheck : checkKey H ks = some (some k) := by
    rw [checkKey_eq hkreads (isNull_of_isMapKey hkey), hkey]
    rfl
  have hbound := bound_le k m
  rw [mapInsert_eq]
  cases hfound : found k m with
  | true =>
    have hlt : bound k m < m.length := by
      by_contra hle
      rw [found, List.getElem?_eq_none (Nat.le_of_not_lt hle)] at hfound
      simp at hfound
    obtain ⟨H', hassign, O', -⟩ := O.assignSlot (i := 2 * bound k m + 1) hjv hv hvs (by
      rw [length_toEntries]
      omega)
    refine ⟨H', ?_, by simpa using O'⟩
    simp only [Handles.mapRepAdd, hcheck, slotsOf_of_rep hr, lowerBound_eq k hslots, findKey_eq k hslots,
      hfound, Option.bind_eq_bind, Option.bind_some, if_true, hassign]
  | false =>
    rw [toTree_of_isAtom (isAtom_of_isMapKey hkey)] at hkreads
    obtain ⟨H₁, hclone₁, O₁, hsame₁⟩ := O.clone hkreads.live
    obtain ⟨H₂, hclone₂, O₂, hsame₂⟩ := O₁.clone (hsame₁.live hvreads.live)
    have hsame := hsame₁.trans hsame₂
    have hreads₂ : ∀ {t s}, ReadsAs H t s → ReadsAs H₂ t s := fun ht =>
      (hsame.kept nowhere).reads O.exact O₂.exact (sealed_nowhere H) (hsame.live ht.live)
        (fun _ _ hn => hn) ht
    obtain ⟨counter, hr₂⟩ := exists_rep_of_shape ((hsame.shape p).trans (shape_of_rep hr))
    refine ⟨_, ?_, O₂.setSlots hr₂ (r.slots.take (2 * bound k m) ++
      (ks :: vs :: r.slots.drop (2 * bound k m))) [] ?_ ?_ ?_⟩
    · simp only [Handles.mapRepAdd, hcheck, slotsOf_of_rep hr, lowerBound_eq k hslots, findKey_eq k hslots,
        hfound, Option.bind_eq_bind, Option.bind_some, Bool.false_eq_true, if_false, hclone₁, hclone₂, hr₂]
    · intro q
      have hsplit : r.slots.count (some q) = (r.slots.take (2 * bound k m)).count (some q) +
          (r.slots.drop (2 * bound k m)).count (some q) := by
        rw [← List.count_append, List.take_append_drop]
      rw [List.count_append, count_cons_cons]
      simp only [List.count_append, List.count_nil]
      omega
    · simp only [Bool.false_eq_true, if_false]
      refine List.rel_append (List.forall₂_take _ ?_) (.cons (hreads₂ hkreads) (.cons (hreads₂ hvreads)
        (List.forall₂_drop _ ?_))) <;> exact hslots.imp fun t s ht => hreads₂ ht
    · intro q hq hmem
      rcases List.mem_append.mp hmem with hmem | hmem
      · exact O.slots_outside hr hq (List.mem_of_mem_take hmem)
      · rcases List.mem_cons.mp hmem with hmem | hmem
        · exact O.apart hjk hks q hmem.symm hq
        · rcases List.mem_cons.mp hmem with hmem | hmem
          · exact O.apart hjv hvs q hmem.symm hq
          · exact O.slots_outside hr hq (List.mem_of_mem_drop hmem)

lemma Open.mapRepRemove {jk : Nat} {k : YCPValue} {ks : Slot} {m : List (YCPValue × YCPValue)}
    (O : Open H env h o p name .map (toEntries m) []) (hkey : k.isMapKey = true) (hjk : jk ≠ h)
    (hk : env[jk]? = some k) (hks : H.vars[jk]? = some ks) :
    ∃ H', mapRepRemove H p ks = some H' ∧ Open H' env h o p name .map (toEntries (mapErase k m)) [] := by
  obtain ⟨r, hr, -, hslots⟩ := O.rep
  have hkreads := O.others jk k ks hjk hk hks
  have hcheck : checkKey H ks = some (some k) := by
    rw [checkKey_eq hkreads (isNull_of_isMapKey hkey), hkey]
    rfl
  rw [mapErase_eq]
  cases hfound : found k m with
  | true =>
    have hlt : bound k m < m.length := by
      by_contra hle
      rw [found, List.getElem?_eq_none (Nat.le_of_not_lt hle)] at hfound
      simp at hfound
    have hlength : r.slots.length = 2 * m.length := by rw [← hslots.length_eq, length_toEntries]
    obtain ⟨first, hfirst⟩ : ∃ s, r.slots[2 * bound k m]? = some s :=
      ⟨_, List.getElem?_eq_getElem (by omega)⟩
    obtain ⟨second, hsecond⟩ : ∃ s, r.slots[2 * bound k m + 1]? = some s :=
      ⟨_, List.getElem?_eq_getElem (by omega)⟩
    have O₁ := O.setSlots hr (r.slots.take (2 * bound k m) ++ r.slots.drop (2 * bound k m + 2))
      (second.toList ++ (first.toList ++ [])) (by
        intro q
        have hcount := congrArg (List.count (some q)) (take_cons_cons_drop hfirst hsecond)
        rw [List.count_append, count_cons_cons] at hcount
        simp only [List.count_append, List.count_nil] at hcount ⊢
        omega)
      (List.rel_append (List.forall₂_take _ hslots) (List.forall₂_drop _ hslots)) (by
        intro q hq hmem
        rcases List.mem_append.mp hmem with hmem | hmem
        · exact O.slots_outside hr hq (List.mem_of_mem_take hmem)
        · exact O.slots_outside hr hq (List.mem_of_mem_drop hmem))
    obtain ⟨H₂, hdestroy₂, O₂, -⟩ := O₁.destroy
    obtain ⟨H', hdestroy, O', -⟩ := O₂.destroy
    refine ⟨H', ?_, by simpa using O'⟩
    simp only [Handles.mapRepRemove, hcheck, slotsOf_of_rep hr, lowerBound_eq k hslots,
      findKey_eq k hslots, hfound, Option.bind_eq_bind, Option.bind_some, if_true, hr, hfirst, hsecond,
      hdestroy₂, hdestroy]
  | false =>
    refine ⟨H, ?_, by simpa using O⟩
    simp only [Handles.mapRepRemove, hcheck, slotsOf_of_rep hr, lowerBound_eq k hslots,
      findKey_eq k hslots, hfound, Option.bind_eq_bind, Option.bind_some, Bool.false_eq_true, if_false]

/-! ### Whole steps -/

lemma Open.close_same {v : YCPValue} (O : Open H env h p p name kind ts [])
    (hv : toTree v = .node kind ts) : Refines H (env.set h v) :=
  O.close (by rw [if_pos rfl, hv])

lemma Open.close_term {l : List YCPValue} (O : Open H env h o p name .list (toTrees l) []) (hop : o ≠ p) :
    Refines H (env.set h (term name l)) :=
  O.close (by rw [if_neg hop, toTree])

/-- A method of a list, given what it does to a list that is being changed. -/
lemma onList_refines (R : Refines H env) {l l' : List YCPValue} (hl : env[h]? = some (list l))
    {method : YHeap → Ptr → Option YHeap}
    (hmethod : ∀ {H p}, Open H env h p p [] .list (toTrees l) [] →
      ∃ H', method H p = some H' ∧ Open H' env h p p [] .list (toTrees l') []) :
    ∃ H', onList H h method = some H' ∧ Refines H' (env.set h (list l')) := by
  obtain ⟨s, hget, hreads⟩ := R.get hl
  rw [toTree] at hreads
  obtain ⟨p, H₁, hcopy, O⟩ := open_var R hl (by rw [toTree]) []
  obtain ⟨H', hH', O'⟩ := hmethod O
  refine ⟨H', ?_, O'.close_same (by rw [toTree])⟩
  simp only [onList, Heap.get, hget, kindOf_of_reads hreads, Option.bind_eq_bind, Option.bind_some, hcopy,
    hH']

lemma onMap_refines (R : Refines H env) {m m' : List (YCPValue × YCPValue)} (hm : env[h]? = some (map m))
    {method : YHeap → Ptr → Option YHeap}
    (hmethod : ∀ {H p}, Open H env h p p [] .map (toEntries m) [] →
      ∃ H', method H p = some H' ∧ Open H' env h p p [] .map (toEntries m') []) :
    ∃ H', onMap H h method = some H' ∧ Refines H' (env.set h (map m')) := by
  obtain ⟨s, hget, hreads⟩ := R.get hm
  rw [toTree] at hreads
  obtain ⟨p, H₁, hcopy, O⟩ := open_var R hm (by rw [toTree]) []
  obtain ⟨H', hH', O'⟩ := hmethod O
  refine ⟨H', ?_, O'.close_same (by rw [toTree])⟩
  simp only [onMap, Heap.get, hget, kindOf_of_reads hreads, Option.bind_eq_bind, Option.bind_some, hcopy,
    hH']

lemma onTerm_refines (R : Refines H env) {n : Text} {l l' : List YCPValue}
    (ht : env[h]? = some (term n l)) {method : YHeap → Ptr → Option YHeap}
    (hmethod : ∀ {H o p}, Open H env h o p n .list (toTrees l) [] →
      ∃ H', method H p = some H' ∧ Open H' env h o p n .list (toTrees l') []) :
    ∃ H', onTerm H h method = some H' ∧ Refines H' (env.set h (term n l')) := by
  obtain ⟨s, hget, hreads⟩ := R.get ht
  rw [toTree] at hreads
  obtain ⟨o, H₁, p, H₂, hcopy, hcopy', hop, O⟩ := open_term R ht
  obtain ⟨H', hH', O'⟩ := hmethod O
  refine ⟨H', ?_, O'.close_term hop⟩
  simp only [onTerm, Heap.get, hget, kindOf_of_reads hreads, Option.bind_eq_bind, Option.bind_some, hcopy,
    hcopy', hH']

/-- The handle of a value, after `writeCopy`. -/
lemma Open.get (O : Open H env h o p name kind ts []) {j : Nat} {v : YCPValue} (hv : env[j]? = some v) :
    ∃ s, H.vars[j]? = some s := by
  have hlt : j < H.vars.length := by
    rw [← O.length_eq]
    exact (List.getElem?_eq_some_iff.mp hv).1
  exact ⟨_, List.getElem?_eq_getElem hlt⟩

lemma Open.add {j : Nat} {v : YCPValue} {l : List YCPValue}
    (O : Open H env h o p name kind (toTrees l) []) (hj : h ≠ j) (hv : env[j]? = some v) :
    ∃ H', (do Handles.listRepAdd H p (← H.get (.var j))) = some H' ∧
      Open H' env h o p name kind (toTrees (l ++ [v])) [] := by
  obtain ⟨s, hs⟩ := O.get hv
  obtain ⟨H', hadd, O', -⟩ := O.listRepAdd (O.others j v s (Ne.symm hj) hv hs) (O.apart (Ne.symm hj) hs)
  refine ⟨H', ?_, ?_⟩
  · simp only [Heap.get, hs, Option.bind_eq_bind, Option.bind_some, hadd]
  · rw [toTrees_eq_map, List.map_append]
    rw [toTrees_eq_map] at O'
    exact O'

lemma Open.set {j : Nat} {v : YCPValue} {l : List YCPValue} {i : Int}
    (O : Open H env h o p name kind (toTrees l) []) (hj : i < 0 ∨ h ≠ j) (hv : env[j]? = some v) :
    ∃ H', (do Handles.listRepSet H p i (← H.get (.var j))) = some H' ∧
      Open H' env h o p name kind (toTrees (listSet l i v)) [] := by
  obtain ⟨s, hs⟩ := O.get hv
  obtain ⟨H', hset, O'⟩ := O.listRepSet i (hj.imp_right Ne.symm) hv hs
  refine ⟨H', ?_, O'⟩
  simp only [Heap.get, hs, Option.bind_eq_bind, Option.bind_some, hset]

/-- A key that is no key, through whatever handle. -/
lemma Open.checkKey_none {jk : Nat} {k : YCPValue} {ks : Slot} {m : List (YCPValue × YCPValue)}
    (O : Open H env h p p name .map (toEntries m) []) (hnull : k.isNull = false)
    (hkey : k.isMapKey = false) (hk : env[jk]? = some k) (hks : H.vars[jk]? = some ks) :
    checkKey H ks = some none := by
  by_cases hjk : jk = h
  · subst hjk
    have htop := O.top
    rw [hks, Option.some.injEq] at htop
    obtain ⟨slots, hshape, hslots⟩ := O.slots
    have hreads : ReadsAs H (.node .map (toEntries m)) ks :=
      readsAs_node.mpr ⟨p, slots, htop, hshape, hslots⟩
    simp [checkKey, kindOf_of_reads hreads]
  · rw [checkKey_eq (O.others jk k ks hjk hk hks) hnull, hkey]
    rfl

lemma ne_of_isMapKey {jk : Nat} {k : YCPValue} {m : List (YCPValue × YCPValue)}
    (hm : env[h]? = some (map m)) (hk : env[jk]? = some k) (hkey : k.isMapKey = true) : jk ≠ h := by
  rintro rfl
  rw [hm, Option.some.injEq] at hk
  subst hk
  simp [isMapKey] at hkey

lemma step_mapAdd (R : Refines H env) {jk jv : Nat} {k v : YCPValue} {m m' : List (YCPValue × YCPValue)}
    (hm : env[h]? = some (map m)) (hk : env[jk]? = some k) (hv : env[jv]? = some v) (hj : h ≠ jv)
    (hadd : mapAdd m k v = some m') :
    ∃ H', step H (.mapAdd h jk jv) = some H' ∧ Refines H' (env.set h (map m')) := by
  rw [step]
  refine onMap_refines R hm fun {H p} O => ?_
  obtain ⟨ks, hks⟩ := O.get hk
  obtain ⟨vs, hvs⟩ := O.get hv
  simp only [Heap.get, hks, hvs, Option.bind_eq_bind, Option.bind_some]
  rw [mapAdd] at hadd
  cases hnull : k.isNull with
  | true => simp [hnull] at hadd
  | false =>
    cases hkey : k.isMapKey with
    | true =>
      simp only [hnull, hkey, Bool.false_eq_true, if_false, if_true, Option.some.injEq] at hadd
      subst hadd
      exact O.mapRepAdd hkey (ne_of_isMapKey hm hk hkey) hk hks (Ne.symm hj) hv hvs
    | false =>
      simp only [hnull, hkey, Bool.false_eq_true, if_false, Option.some.injEq] at hadd
      subst hadd
      refine ⟨H, ?_, O⟩
      simp [mapRepAdd, O.checkKey_none hnull hkey hk hks]

lemma step_mapRemove (R : Refines H env) {jk : Nat} {k : YCPValue} {m m' : List (YCPValue × YCPValue)}
    (hm : env[h]? = some (map m)) (hk : env[jk]? = some k) (hremove : mapRemove m k = some m') :
    ∃ H', step H (.mapRemove h jk) = some H' ∧ Refines H' (env.set h (map m')) := by
  rw [step]
  refine onMap_refines R hm fun {H p} O => ?_
  obtain ⟨ks, hks⟩ := O.get hk
  simp only [Heap.get, hks, Option.bind_eq_bind, Option.bind_some]
  rw [mapRemove] at hremove
  cases hnull : k.isNull with
  | true => simp [hnull] at hremove
  | false =>
    cases hkey : k.isMapKey with
    | true =>
      simp only [hnull, hkey, Bool.false_eq_true, if_false, if_true, Option.some.injEq] at hremove
      subst hremove
      exact O.mapRepRemove hkey (ne_of_isMapKey hm hk hkey) hk hks
    | false =>
      simp only [hnull, hkey, Bool.false_eq_true, if_false, Option.some.injEq] at hremove
      subst hremove
      refine ⟨H, ?_, O⟩
      simp [mapRepRemove, O.checkKey_none hnull hkey hk hks]

/-- One operation. -/
theorem step_refines (R : Refines H env) {op : Op} (hop : op.apart = true) {env' : List YCPValue}
    (hstep : valueStep env op = some env') : ∃ H', step H op = some H' ∧ Refines H' env' := by
  cases op with
  | atom h v =>
    rw [valueStep] at hstep
    split at hstep
    next hcond =>
      cases hstep
      exact step_atom R hcond.1 hcond.2
    next => cases hstep
  | newList h =>
    rw [valueStep] at hstep
    split at hstep
    next hh =>
      cases hstep
      exact step_newList R hh
    next => cases hstep
  | newMap h =>
    rw [valueStep] at hstep
    split at hstep
    next hh =>
      cases hstep
      exact step_newMap R hh
    next => cases hstep
  | newTerm h name =>
    rw [valueStep] at hstep
    split at hstep
    next hh =>
      cases hstep
      exact step_newTerm R hh name
    next => cases hstep
  | termOf h name l =>
    rw [valueStep] at hstep
    split at hstep
    next args hl =>
      split at hstep
      next hh =>
        cases hstep
        exact step_termOf R hh name hl
      next => cases hstep
    next => cases hstep
  | assign h h' =>
    obtain ⟨v, hv, hrest⟩ := Option.bind_eq_some_iff.mp hstep
    split at hrest
    next hh =>
      cases hrest
      exact step_assign R hh hv
    next => cases hrest
  | drop h =>
    rw [valueStep] at hstep
    split at hstep
    next hh =>
      cases hstep
      exact step_drop R hh
    next => cases hstep
  | fetch h c i =>
    obtain ⟨vc, hc, hrest⟩ := Option.bind_eq_some_iff.mp hstep
    obtain ⟨v, hv, hrest⟩ := Option.bind_eq_some_iff.mp hrest
    split at hrest
    next hh =>
      cases hrest
      exact step_fetch R hh hc hv
    next => cases hrest
  | listAdd h value =>
    rw [valueStep] at hstep
    split at hstep
    next l v hl hv =>
      cases hstep
      have hj : h ≠ value := by simpa [Op.apart] using hop
      rw [step]
      exact onList_refines R hl fun O => O.add hj hv
    next => cases hstep
  | listSet h i value =>
    rw [valueStep] at hstep
    split at hstep
    next l v hl hv =>
      cases hstep
      have hj : i < 0 ∨ h ≠ value := by simpa [Op.apart] using hop
      rw [step]
      exact onList_refines R hl fun O => O.set hj hv
    next => cases hstep
  | listRemove h n =>
    rw [valueStep] at hstep
    split at hstep
    next l hl =>
      split at hstep
      next => cases hstep
      next hn =>
        cases hstep
        rw [step]
        exact onList_refines R hl fun O => O.listRepRemove hn
    next => cases hstep
  | mapAdd h key value =>
    rw [valueStep] at hstep
    split at hstep
    next m k v hm hk hv =>
      obtain ⟨m', hadd, rfl⟩ := Option.map_eq_some_iff.mp hstep
      have hj : h ≠ value := by simpa [Op.apart] using hop
      exact step_mapAdd R hm hk hv hj hadd
    next => cases hstep
  | mapRemove h key =>
    rw [valueStep] at hstep
    split at hstep
    next m k hm hk =>
      obtain ⟨m', hremove, rfl⟩ := Option.map_eq_some_iff.mp hstep
      exact step_mapRemove R hm hk hremove
    next => cases hstep
  | termAdd h value =>
    rw [valueStep] at hstep
    split at hstep
    next n l v hl hv =>
      cases hstep
      have hj : h ≠ value := by simpa [Op.apart] using hop
      rw [step]
      exact onTerm_refines R hl fun O => O.add hj hv
    next => cases hstep
  | termSet h i value =>
    rw [valueStep] at hstep
    split at hstep
    next n l v hl hv =>
      cases hstep
      have hj : i < 0 ∨ h ≠ value := by simpa [Op.apart] using hop
      rw [step]
      exact onTerm_refines R hl fun O => O.set hj hv
    next => cases hstep

theorem run_refines {ops : List Op} (R : Refines H env) (hops : ∀ op ∈ ops, op.apart = true)
    {env' : List YCPValue} (hrun : valueRun env ops = some env') :
    ∃ H', run H ops = some H' ∧ Refines H' env' := by
  induction ops generalizing H env with
  | nil =>
    cases hrun
    exact ⟨H, rfl, R⟩
  | cons op ops ih =>
    obtain ⟨env₁, hstep, hrest⟩ := Option.bind_eq_some_iff.mp hrun
    obtain ⟨H₁, hstep₁, R₁⟩ := step_refines R (hops op List.mem_cons_self) hstep
    obtain ⟨H', hrun', R'⟩ := ih R₁ (fun op' hop' => hops op' (List.mem_cons_of_mem op hop')) hrest
    refine ⟨H', ?_, R'⟩
    rw [run, hstep₁]
    exact hrun'

/-- `n` handles, none of them alive, and nothing in the heap. -/
def start (n : Nat) : YHeap := ⟨List.replicate n none, fun _ => none, 0⟩

lemma refines_start (n : Nat) : Refines (start n) (List.replicate n null) := by
  refine ⟨⟨fun _ _ => rfl, fun p => ?_⟩, ?_⟩
  · simp [start, counterOf, refs, List.count_replicate]
  · rw [List.forall₂_iff_get]
    refine ⟨by simp [start], fun i h₁ h₂ => ?_⟩
    simp only [start, List.get_eq_getElem, List.getElem_replicate]
    rw [toTree]
    exact readsAs_null.mpr rfl

/-- What a handle stands for. -/
def Holds (H : YHeap) (h : Nat) (v : YCPValue) : Prop :=
  ∃ s, H.vars[h]? = some s ∧ ReadsAs H (toTree v) s

lemma Holds.unique {v w : YCPValue} (hv : Holds H h v) (hw : Holds H h w) : v = w := by
  obtain ⟨s, hs, hreads⟩ := hv
  obtain ⟨s', hs', hreads'⟩ := hw
  rw [hs, Option.some.injEq] at hs'
  subst hs'
  exact toTree_injective (hreads.unique hreads')

end YastCore.Handles
