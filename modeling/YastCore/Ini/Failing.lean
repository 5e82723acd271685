import YastCore.Ini.Reading

/-!
# Writes that fail

What an `IniSection::Write` that returns -1 leaves of the tree. Nothing is undone: the sections that were
missing on the way stay, and so do the properties in front of the one that is refused.
-/

namespace YastCore.Ini

open Lines

namespace SectionOf

/-- A section that holds no values itself. -/
def NoValues (s : IniSection) : Prop := ∀ id e, (id, Element.value e) ∉ s.container

/-- The elements are all there with their names and values and in their order; what is new at the end is
sections without values. Without repeated names nothing else is different. -/
inductive Kept (o : Options) : IniSection → IniSection → Prop where
  | intro {s s' : IniSection} (name : s'.name = s.name) (end_comment : s'.end_comment = s.end_comment)
      (props : o.repeat_names = false → s'.toIniBase = s.toIniBase ∧ s'.rewrite_by = s.rewrite_by ∧
        s'.is_private = s.is_private)
      (order : s.container.map Prod.fst <+: s'.container.map Prod.fst)
      (values : ∀ id e, (id, Element.value e) ∈ s.container → ∃ e', (id, Element.value e') ∈ s'.container ∧
        e'.name = e.name ∧ e'.val = e.val ∧ (o.repeat_names = false → e' = e))
      (sections : ∀ id t, (id, Element.section t) ∈ s.container → ∃ t', (id, Element.section t') ∈ s'.container)
      (below : ∀ id t t', (id, Element.section t) ∈ s.container → (id, Element.section t') ∈ s'.container →
        Kept o t t')
      (added : ∀ id x, (id, x) ∈ s'.container → id ∉ s.container.map Prod.fst →
        ∃ t, x = .section t ∧ Everywhere NoValues t) : Kept o s s'

/-- The same of an element. -/
def KeptElement (o : Options) : Element → Element → Prop
  | .value e, .value e' => e'.name = e.name ∧ e'.val = e.val ∧ (o.repeat_names = false → e' = e)
  | .section t, .section t' => Kept o t t'
  | _, _ => False

section

variable {o : Options} {s s' s'' t t' : IniSection} {k : Text} {id : Nat} {x y : Element}

lemma mem_fst {container : List (Nat × Element)} (h : (id, x) ∈ container) : id ∈ container.map Prod.fst :=
  List.mem_map.mpr ⟨_, h, rfl⟩

lemma kept_refl (h : Everywhere Distinct s) : Kept o s s := by
  induction h with
  | @intro s here below ih =>
    refine .intro rfl rfl (fun _ => ⟨rfl, rfl, rfl⟩) List.prefix_rfl (fun id e he => ⟨e, he, rfl, rfl, fun _ => rfl⟩)
      (fun id t ht => ⟨t, ht⟩) (fun id t t' ht ht' => ?_) fun id x hx hnot => absurd (mem_fst hx) hnot
    cases Slots.mem_unique here ht ht'
    exact ih id t ht

/-- Sections without values stay so. -/
lemma noValues_of_kept (h : Kept o s s') (hs : Everywhere NoValues s) (hd : Everywhere Distinct s') :
    Everywhere NoValues s' := by
  induction h with
  | @intro s s' _ _ _ _ _ sections _ added ih =>
    have helement : ∀ id x, (id, x) ∈ s'.container → ∃ t, x = .section t ∧ Everywhere NoValues t := by
      intro id x hx
      by_cases hid : id ∈ s.container.map Prod.fst
      · obtain ⟨⟨i, y⟩, hy, rfl⟩ := List.mem_map.mp hid
        cases y with
        | value e => exact absurd hy (hs.here i e)
        | «section» t =>
          obtain ⟨t', ht'⟩ := sections i t hy
          cases Slots.mem_unique hd.here hx ht'
          exact ⟨t', rfl, ih i t t' hy ht' (hs.inside i t hy) (hd.inside i t' ht')⟩
      · exact added id x hx hid
    refine .intro (fun id e he => ?_) fun id t ht => ?_
    · obtain ⟨t, ht, -⟩ := helement id _ he
      cases ht
    · obtain ⟨u, hu, hbare⟩ := helement id _ ht
      cases hu
      exact hbare

lemma kept_trans (h : Kept o s s') (h' : Kept o s' s'') (hd : Everywhere Distinct s'') : Kept o s s'' := by
  induction h generalizing s'' with
  | @intro s s' name end_comment props order values sections below added ih =>
    cases h' with
    | intro name' end_comment' props' order' values' sections' below' added' =>
      refine .intro (name'.trans name) (end_comment'.trans end_comment) (fun hrepeat => ?_) (order.trans order')
        (fun id e he => ?_) (fun id t ht => ?_) (fun id t t'' ht ht'' => ?_) fun id x hx hnot => ?_
      · obtain ⟨h₁, h₂, h₃⟩ := props hrepeat
        obtain ⟨h₁', h₂', h₃'⟩ := props' hrepeat
        exact ⟨h₁'.trans h₁, h₂'.trans h₂, h₃'.trans h₃⟩
      · obtain ⟨e', he', hname, hval, hsame⟩ := values id e he
        obtain ⟨e'', he'', hname', hval', hsame'⟩ := values' id e' he'
        exact ⟨e'', he'', hname'.trans hname, hval'.trans hval,
          fun hrepeat => (hsame' hrepeat).trans (hsame hrepeat)⟩
      · obtain ⟨t', ht'⟩ := sections id t ht
        exact sections' id t' ht'
      · obtain ⟨t', ht'⟩ := sections id t ht
        exact ih id t t' ht ht' (below' id t' t'' ht' ht'') (hd.inside id t'' ht'')
      · by_cases hid : id ∈ s'.container.map Prod.fst
        · obtain ⟨⟨i, y⟩, hy, rfl⟩ := List.mem_map.mp hid
          obtain ⟨t, rfl, hbare⟩ := added i y hy hnot
          obtain ⟨t', ht'⟩ := sections' i t hy
          cases Slots.mem_unique hd.here hx ht'
          exact ⟨t', rfl, noValues_of_kept (below' i t t' hy ht') hbare (hd.inside i t' ht')⟩
        · exact added' id x hx hid

/-! ### Elementary changes -/

lemma mem_replace_self (hx : id ∈ s.container.map Prod.fst) : (id, y) ∈ (s.replace id y).container :=
  Slots.mem_of_find (Slots.find_replace_self hx y)

lemma mem_replace_of_ne {i : Nat} (hne : i ≠ id) (hx : (i, x) ∈ s.container) : (i, x) ∈ (s.replace id y).container :=
  List.mem_map.mpr ⟨(i, x), hx, if_neg hne⟩

lemma kept_replace (h : Everywhere Distinct s) (hx : (id, x) ∈ s.container) (hxy : KeptElement o x y) :
    Kept o s (s.replace id y) := by
  have hids : (s.replace id y).container.map Prod.fst = s.container.map Prod.fst := Slots.map_fst_replace id y _
  have hself := mem_replace_self (y := y) (mem_fst hx)
  have helement : ∀ i z, (i, z) ∈ s.container → ∃ z', (i, z') ∈ (s.replace id y).container ∧
      (z' = z ∨ i = id ∧ z = x ∧ z' = y) := by
    intro i z hz
    by_cases hi : i = id
    · subst hi
      exact ⟨y, hself, .inr ⟨rfl, Slots.mem_unique h.here hz hx, rfl⟩⟩
    · exact ⟨z, mem_replace_of_ne hi hz, .inl rfl⟩
  refine .intro rfl rfl (fun _ => ⟨rfl, rfl, rfl⟩) ?_ (fun i e he => ?_) (fun i t ht => ?_)
    (fun i t t' ht ht' => ?_) fun i z hz hnot => absurd (hids ▸ mem_fst hz) hnot
  · exact hids ▸ List.prefix_rfl
  · obtain ⟨z', hz', rfl | ⟨rfl, rfl, rfl⟩⟩ := helement i _ he
    · exact ⟨e, hz', rfl, rfl, fun _ => rfl⟩
    · cases z' with
      | value e' => exact ⟨e', hz', hxy⟩
      | «section» t => exact hxy.elim
  · obtain ⟨z', hz', rfl | ⟨rfl, rfl, rfl⟩⟩ := helement i _ ht
    · exact ⟨t, hz'⟩
    · cases z' with
      | value e' => exact hxy.elim
      | «section» t' => exact ⟨t', hz'⟩
  · rcases Slots.mem_replace ht' with ht' | heq
    · cases Slots.mem_unique h.here ht ht'.1
      exact kept_refl (h.inside i t ht)
    · cases heq
      cases Slots.mem_unique h.here ht hx
      exact hxy

lemma kept_pushNamed (h : Everywhere Distinct s) : Kept o s (s.pushSection o k (.named k)) := by
  have hold : ∀ i z, (i, z) ∈ s.container → (i, z) ∈ (s.pushSection o k (.named k)).container :=
    fun i z hz => Slots.mem_push.mpr (.inl hz)
  refine .intro rfl rfl (fun _ => ⟨rfl, rfl, rfl⟩) ?_ (fun i e he => ⟨e, hold i _ he, rfl, rfl, fun _ => rfl⟩)
    (fun i t ht => ⟨t, hold i _ ht⟩) (fun i t t' ht ht' => ?_) fun i z hz hnot => ?_
  · rw [SectionOf.pushSection, Slots.push, List.map_append]
    exact List.prefix_append _ _
  · cases Slots.mem_unique (distinct_pushSection (o := o) (k := k) h distinct_named).here (hold i _ ht) ht'
    exact kept_refl (h.inside i t ht)
  · rcases Slots.mem_push.mp hz with hz | heq
    · exact absurd (mem_fst hz) hnot
    · cases heq
      exact ⟨_, rfl, .intro (fun _ _ hmem => List.not_mem_nil hmem) fun _ _ hmem => absurd hmem List.not_mem_nil⟩

/-! ### The loops over the properties -/

lemma keptElement_setProp {what : ValueProp} {e e' : IniEntry} {prop : YCPValue} (hrepeat : o.repeat_names = true)
    (hwhat : what ≠ .value) (he : e.setProp o what prop = some e') : KeptElement o (.value e) (.value e') := by
  refine ⟨name_setProp he, ?_, fun hnot => ?_⟩
  · unfold IniEntry.setProp at he
    split at he
    · exact absurd rfl hwhat
    all_goals
      cases he
    all_goals rfl
  · rw [hrepeat] at hnot
    cases hnot

lemma kept_setMyLoop {what : ValueProp} (hrepeat : o.repeat_names = true) (hwhat : what ≠ .value)
    (props : List YCPValue) (ids : List Nat) {r : Outcome} (h : Everywhere Distinct s)
    (hr : setMyLoop o what k props ids s = some r) (hfail : r.ok = false) :
    Kept o s r.tree ∧ Everywhere Distinct r.tree := by
  induction props generalizing s ids with
  | nil =>
    rw [setMyLoop] at hr
    cases hr
    cases hfail
  | cons prop props ih =>
    cases ids with
    | nil =>
      rw [setMyLoop] at hr
      split at hr
      · cases hr
      · cases hr
        exact ⟨kept_refl h, h⟩
    | cons id ids =>
      rw [setMyLoop] at hr
      split at hr
      · cases hr
      · split at hr
        next e he =>
          split at hr
          · cases hr
            exact ⟨kept_refl h, h⟩
          next e' he' =>
            have hd : Everywhere Distinct (s.replace id (.value e')) :=
              distinct_replace h (h.inside.replace_value e')
            have hstep := kept_replace h (Slots.mem_of_find he) (keptElement_setProp hrepeat hwhat he')
            obtain ⟨hkept, hd'⟩ := ih ids hd hr
            exact ⟨kept_trans hstep hkept hd', hd'⟩
        · cases hr

/-- Without repeated names there is one property, and where it is refused nothing has happened. -/
lemma setMyLoop_one {what : ValueProp} {prop : YCPValue} (ids : List Nat) {r : Outcome}
    (hr : setMyLoop o what k [prop] ids s = some r) (hfail : r.ok = false) : r.tree = s := by
  cases ids with
  | nil =>
    rw [setMyLoop] at hr
    split at hr
    · cases hr
    · split at hr
      · cases hr
        rfl
      · rw [setMyLoop] at hr
        cases hr
        cases hfail
  | cons id ids =>
    rw [setMyLoop] at hr
    split at hr
    · cases hr
    · split at hr
      · split at hr
        · cases hr
          rfl
        · rw [setMyLoop] at hr
          cases hr
          cases hfail
      · cases hr

lemma kept_setMyValue {component : Text} {v : YCPValue} {what : ValueProp} {r : Outcome} (h : Everywhere Distinct s)
    (hr : s.setMyValue o component v what = some r) (hfail : r.ok = false) :
    Kept o s r.tree ∧ Everywhere Distinct r.tree := by
  unfold setMyValue at hr
  dsimp only at hr
  split at hr
  · cases hr
    exact ⟨kept_refl h, h⟩
  next props hprops =>
    cases hrepeat : o.repeat_names with
    | false =>
      have hone : props = [v] := by
        unfold propsOf at hprops
        rw [hrepeat] at hprops
        exact (Option.some.inj hprops).symm
      rw [hone] at hr
      rw [setMyLoop_one _ hr hfail]
      exact ⟨kept_refl h, h⟩
    | true =>
      have hwhat : what ≠ .value := by
        rintro rfl
        rw [ok_setMyLoop _ _ (.inl rfl) hr] at hfail
        cases hfail
      exact kept_setMyLoop hrepeat hwhat props _ h hr hfail

lemma kept_setProp {what : SectionProp} {prop : YCPValue} (hrepeat : o.repeat_names = true)
    (h : Everywhere Distinct t) (ht : setProp what t prop = some t') : Kept o t t' ∧ Everywhere Distinct t' := by
  have hsame : t'.name = t.name ∧ t'.end_comment = t.end_comment ∧ t'.container = t.container := by
    unfold setProp at ht
    split at ht <;> cases ht <;> exact ⟨rfl, rfl, rfl⟩
  obtain ⟨hname, hend, hcontainer⟩ := hsame
  have hd : Everywhere Distinct t' := everywhere_congr h (by rw [Distinct, hcontainer]; exact h.here) hcontainer
  refine ⟨.intro hname hend (fun hnot => ?_) ?_ (fun i e he => ?_) (fun i u hu => ?_) (fun i u u' hu hu' => ?_)
    (fun i z hz hnot => ?_), hd⟩
  · rw [hrepeat] at hnot
    cases hnot
  · exact hcontainer ▸ List.prefix_rfl
  · rw [hcontainer]
    exact ⟨e, he, rfl, rfl, fun _ => rfl⟩
  · rw [hcontainer]
    exact ⟨u, hu⟩
  · rw [hcontainer] at hu'
    cases Slots.mem_unique h.here hu hu'
    exact kept_refl (h.inside i u hu)
  · rw [hcontainer] at hz
    exact absurd (mem_fst hz) hnot

lemma kept_setSectionLoop {what : SectionProp} (hrepeat : o.repeat_names = true) (props : List YCPValue)
    (ids : List Nat) {r : Outcome} (h : Everywhere Distinct s)
    (hr : setSectionLoop o what k props ids s = some r) (hfail : r.ok = false) :
    Kept o s r.tree ∧ Everywhere Distinct r.tree := by
  induction props generalizing s ids with
  | nil =>
    rw [setSectionLoop] at hr
    cases hr
    cases hfail
  | cons prop props ih =>
    have hnamed : Everywhere Distinct (IniSection.named k) :=
      (everywhere_named (o := o)).mono fun _ hi => hi.distinct
    have hpush := distinct_pushSection (o := o) (k := k) h (distinct_named (k := k))
    cases ids with
    | nil =>
      rw [setSectionLoop] at hr
      split at hr
      · cases hr
      · split at hr
        · cases hr
          exact ⟨kept_pushNamed h, hpush⟩
        next t ht =>
          obtain ⟨hset, hd⟩ := kept_setProp hrepeat hnamed ht
          have hfind := Slots.mem_of_find (find_pushSection (o := o) (k := k) h.here (IniSection.named k))
          have hstep := kept_replace hpush hfind (y := .section t) hset
          have hd' : Everywhere Distinct ((s.pushSection o k (.named k)).replace (Slots.fresh s.container) (.section t)) :=
            distinct_replace hpush (hpush.inside.replace_section hd)
          obtain ⟨hkept, hd''⟩ := ih [] hd' hr
          exact ⟨kept_trans (kept_trans (kept_pushNamed h) hstep hd') hkept hd'', hd''⟩
    | cons id ids =>
      rw [setSectionLoop] at hr
      split at hr
      · cases hr
      · split at hr
        next t ht =>
          split at hr
          · cases hr
            exact ⟨kept_refl h, h⟩
          next t' ht' =>
            have hmem := Slots.mem_of_find ht
            obtain ⟨hset, hd⟩ := kept_setProp hrepeat (h.inside id t hmem) ht'
            have hstep := kept_replace h hmem (y := .section t') hset
            have hd' : Everywhere Distinct (s.replace id (.section t')) :=
              distinct_replace h (h.inside.replace_section hd)
            obtain ⟨hkept, hd''⟩ := ih ids hd' hr
            exact ⟨kept_trans hstep hkept hd'', hd''⟩
        · cases hr

/-- Without repeated names, a section that was not there stays. -/
lemma setSectionLoop_one {what : SectionProp} {prop : YCPValue} (ids : List Nat) {r : Outcome}
    (hr : setSectionLoop o what k [prop] ids s = some r) (hfail : r.ok = false) :
    r.tree = s ∨ ids = [] ∧ r.tree = s.pushSection o k (.named k) := by
  cases ids with
  | nil =>
    rw [setSectionLoop] at hr
    split at hr
    · cases hr
    · split at hr
      · cases hr
        exact .inr ⟨rfl, rfl⟩
      · rw [setSectionLoop] at hr
        cases hr
        cases hfail
  | cons id ids =>
    rw [setSectionLoop] at hr
    split at hr
    · cases hr
    · split at hr
      · split at hr
        · cases hr
          exact .inl rfl
        · rw [setSectionLoop] at hr
          cases hr
          cases hfail
      · cases hr

/-! ### Paths -/

variable {v : YCPValue} {r : Outcome}

lemma distinct_lastSection (h : Everywhere Distinct s) :
    Everywhere Distinct (s.lastSection o k).1 ∧ Kept o s (s.lastSection o k).1 := by
  unfold lastSection
  split
  · exact ⟨h, kept_refl h⟩
  · exact ⟨distinct_pushSection h distinct_named, kept_pushNamed h⟩

lemma kept_descend {f : IniSection → Option Outcome} (h : Everywhere Distinct s)
    (hf : ∀ t q, Everywhere Distinct t → f t = some q → q.ok = false → Kept o t q.tree ∧ Everywhere Distinct q.tree)
    (hr : s.descend id f = some r) (hfail : r.ok = false) : Kept o s r.tree ∧ Everywhere Distinct r.tree := by
  unfold descend at hr
  split at hr
  next t ht =>
    obtain ⟨q, hq, rfl⟩ := Option.map_eq_some_iff.mp hr
    have hmem := Slots.mem_of_find ht
    obtain ⟨hkept, hd⟩ := hf t q (h.inside id t hmem) hq hfail
    exact ⟨kept_replace h hmem (y := .section q.tree) hkept,
      distinct_replace h (h.inside.replace_section hd)⟩
  · cases hr

lemma kept_setValue {what : ValueProp} (path : List Text) (h : Everywhere Distinct s)
    (hr : setValue o v what path s = some r) (hfail : r.ok = false) : Kept o s r.tree ∧ Everywhere Distinct r.tree := by
  induction path generalizing s r with
  | nil =>
    cases hr
    exact ⟨kept_refl h, h⟩
  | cons component path ih =>
    cases path with
    | nil => exact kept_setMyValue h hr hfail
    | cons c path =>
      rw [setValue_cons] at hr
      obtain ⟨hd, hlast⟩ := distinct_lastSection (o := o) (k := changeCase o component) h
      obtain ⟨hkept, hd'⟩ := kept_descend hd (fun t q ht hq hok => ih ht hq hok) hr hfail
      exact ⟨kept_trans hlast hkept hd', hd'⟩

lemma setSectionProp_cons {what : SectionProp} {component c : Text} {path : List Text} :
    setSectionProp o v what (component :: c :: path) s =
      (s.lastSection o (changeCase o component)).1.descend (s.lastSection o (changeCase o component)).2
        (setSectionProp o v what (c :: path)) := rfl

lemma kept_setSectionProp {what : SectionProp} (path : List Text) (h : Everywhere Distinct s)
    (hr : setSectionProp o v what path s = some r) (hfail : r.ok = false) :
    Kept o s r.tree ∧ Everywhere Distinct r.tree := by
  induction path generalizing s r with
  | nil =>
    cases hr
    exact ⟨kept_refl h, h⟩
  | cons component path ih =>
    cases path with
    | nil =>
      rw [setSectionProp] at hr
      split at hr
      · cases hr
        exact ⟨kept_refl h, h⟩
      next props hprops =>
        cases hrepeat : o.repeat_names with
        | true => exact kept_setSectionLoop hrepeat props _ h hr hfail
        | false =>
          have hone : props = [v] := by
            unfold propsOf at hprops
            rw [hrepeat] at hprops
            exact (Option.some.inj hprops).symm
          rw [hone] at hr
          rcases setSectionLoop_one _ hr hfail with heq | ⟨-, heq⟩
          · rw [heq]
            exact ⟨kept_refl h, h⟩
          · rw [heq]
            exact ⟨kept_pushNamed h, distinct_pushSection h distinct_named⟩
    | cons c path =>
      rw [setSectionProp_cons] at hr
      obtain ⟨hd, hlast⟩ := distinct_lastSection (o := o) (k := changeCase o component) h
      obtain ⟨hkept, hd'⟩ := kept_descend hd (fun t q ht hq hok => ih ht hq hok) hr hfail
      exact ⟨kept_trans hlast hkept hd', hd'⟩

/-! ### Failures that change nothing -/

/-- What the writer finds in the section at the end of the path; nothing where a section is missing. -/
def AtLast (o : Options) (P : Text → IniSection → Prop) : List Text → IniSection → Prop
  | [], _ => True
  | [component], s => P (changeCase o component) s
  | component :: path, s => ∃ id t, (Slots.equalRange (changeCase o component) s.isections).getLast? = some id ∧
      s.sectionAt id = some t ∧ AtLast o P path t

/-- The first property has the wrong type for a value, or there is no value to set it of. -/
def ValueRefused (o : Options) (what : ValueProp) (v : YCPValue) (k : Text) (s : IniSection) : Prop :=
  ∀ prop props, propsOf o v = some (prop :: props) →
    Slots.equalRange k s.ivalues = [] ∨ ∀ e : IniEntry, e.setProp o what prop = none

/-- The first property has the wrong type for a section, and there is one. -/
def SectionRefused (o : Options) (what : SectionProp) (v : YCPValue) (k : Text) (s : IniSection) : Prop :=
  ∀ prop props, propsOf o v = some (prop :: props) →
    Slots.equalRange k s.isections ≠ [] ∧ ∀ t, setProp what t prop = none

lemma replace_same (h : Distinct s) (ht : Assoc.find id s.container = some x) : s.replace id x = s := by
  have hcontainer : Slots.replace id x s.container = s.container := by
    have hself : ∀ p ∈ s.container, (if p.1 = id then (id, x) else p) = p := by
      rintro ⟨i, y⟩ hy
      by_cases hi : i = id
      · subst hi
        rw [if_pos rfl, Slots.mem_unique h hy (Slots.mem_of_find ht)]
      · exact if_neg hi
    rw [Slots.replace, List.map_congr_left hself, List.map_id']
  unfold SectionOf.replace
  rw [hcontainer]

lemma same_setMyValue {what : ValueProp} {component : Text} (hrefused : ValueRefused o what v (changeCase o component) s)
    (hr : s.setMyValue o component v what = some r) (hfail : r.ok = false) : r.tree = s := by
  unfold setMyValue at hr
  dsimp only at hr
  split at hr
  · cases hr
    rfl
  next props hprops =>
    have hwhat : what ≠ .value := by
      rintro rfl
      rw [ok_setMyLoop _ _ (.inl rfl) hr] at hfail
      cases hfail
    cases props with
    | nil =>
      rw [setMyLoop] at hr
      cases hr
      cases hfail
    | cons prop props =>
      cases hids : Slots.equalRange (changeCase o component) s.ivalues with
      | nil =>
        rw [hids, setMyLoop] at hr
        split at hr
        · cases hr
        · cases hr
          rfl
      | cons id ids =>
        rw [hids, setMyLoop] at hr
        split at hr
        · cases hr
        · split at hr
          next e he =>
            have hnone : e.setProp o what prop = none := by
              rcases hrefused prop props hprops with hempty | hrefuse
              · rw [hids] at hempty
                cases hempty
              · exact hrefuse e
            rw [hnone] at hr
            cases hr
            rfl
          · cases hr

lemma same_setSections {what : SectionProp} {component : Text}
    (hrefused : SectionRefused o what v (changeCase o component) s)
    (hr : setSectionProp o v what [component] s = some r) (hfail : r.ok = false) : r.tree = s := by
  rw [setSectionProp] at hr
  split at hr
  · cases hr
    rfl
  next props hprops =>
    cases props with
    | nil =>
      rw [setSectionLoop] at hr
      cases hr
      cases hfail
    | cons prop props =>
      obtain ⟨hne, hrefuse⟩ := hrefused prop props hprops
      cases hids : Slots.equalRange (changeCase o component) s.isections with
      | nil => exact absurd hids hne
      | cons id ids =>
        rw [hids, setSectionLoop] at hr
        split at hr
        · cases hr
        · split at hr
          next t ht =>
            rw [hrefuse t] at hr
            cases hr
            rfl
          · cases hr

/-- Nothing changes on the way to a section that does not change. -/
lemma same_descend {component : Text} {t : IniSection} {f : IniSection → Option Outcome} (h : Everywhere Distinct s)
    (hlast : (Slots.equalRange (changeCase o component) s.isections).getLast? = some id)
    (ht : s.sectionAt id = some t) (hf : ∀ q, f t = some q → q.ok = false → q.tree = t)
    (hr : (s.lastSection o (changeCase o component)).1.descend (s.lastSection o (changeCase o component)).2 f = some r)
    (hfail : r.ok = false) : r.tree = s := by
  have hfound : s.lastSection o (changeCase o component) = (s, id) := by
    unfold lastSection
    rw [hlast]
  have hfind := Slots.find_of_mem h.here ((sectionAt_iff h.here).mp ht)
  rw [hfound, descend, hfind] at hr
  obtain ⟨q, hq, rfl⟩ := Option.map_eq_some_iff.mp hr
  dsimp only
  rw [hf q hq hfail, replace_same h.here hfind]

lemma same_setValue {what : ValueProp} (path : List Text) (h : Everywhere Distinct s)
    (hclean : AtLast o (ValueRefused o what v) path s) (hr : setValue o v what path s = some r)
    (hfail : r.ok = false) : r.tree = s := by
  induction path generalizing s r with
  | nil =>
    cases hr
    rfl
  | cons component path ih =>
    cases path with
    | nil => exact same_setMyValue hclean hr hfail
    | cons c path =>
      obtain ⟨id, t, hlast, ht, hrest⟩ := hclean
      rw [setValue_cons] at hr
      have hd := h.inside id t ((sectionAt_iff h.here).mp ht)
      exact same_descend h hlast ht (fun q hq hok => ih hd hrest hq hok) hr hfail

lemma same_setSectionProp {what : SectionProp} (path : List Text) (h : Everywhere Distinct s)
    (hclean : AtLast o (SectionRefused o what v) path s) (hr : setSectionProp o v what path s = some r)
    (hfail : r.ok = false) : r.tree = s := by
  induction path generalizing s r with
  | nil =>
    cases hr
    rfl
  | cons component path ih =>
    cases path with
    | nil => exact same_setSections hclean hr hfail
    | cons c path =>
      obtain ⟨id, t, hlast, ht, hrest⟩ := hclean
      rw [setSectionProp_cons] at hr
      have hd := h.inside id t ((sectionAt_iff h.here).mp ht)
      exact same_descend h hlast ht (fun q hq hok => ih hd hrest hq hok) hr hfail

/-! ### All writes -/

/-- The properties of sections that the first component of a path stands for. -/
def sectionWhat (rewrite : Bool) (c : Text) : Option SectionProp :=
  if c ∈ [ascii "s", ascii "section", ascii "sc", ascii "section_comment", ascii "sectioncomment"] then some .comment
  else if c ∈ [ascii "st", ascii "section_type", ascii "sectiontype"] then
    some (if rewrite then .rewrite else .type)
  else if c = ascii "section_private" then some .isPrivate
  else none

/-- A write of properties that is refused before anything has changed. -/
def RefusedAtOnce (o : Options) (rewrite : Bool) (v : YCPValue) (s : IniSection) : List Text → Prop
  | [] => True
  | c :: path =>
    if o.flat then
      ValueRefused o (if path.head? = some (ascii "comment") then .comment else .value) v (changeCase o c) s
    else
      (c = ascii "all" → allSection o path s = none) ∧
        (∀ what, valueWhat c = some what → AtLast o (ValueRefused o what v) path s) ∧
        ∀ what, sectionWhat rewrite c = some what → AtLast o (SectionRefused o what v) path s

/-- Only the section that the path leads a reader to is different. -/
def OnlyAt (o : Options) : List Text → IniSection → IniSection → Prop
  | [], _, _ => True
  | component :: path, s, s' => s' = s ∨ ∃ id t t',
      (Slots.equalRange (changeCase o component) s.isections).head? = some id ∧ s.sectionAt id = some t ∧
        s' = s.replace id (.section t') ∧ OnlyAt o path t t'

lemma setAll_missing (path : List Text) (hnone : allSection o path s = none) (hr : setAll o v path s = some r)
    (h : Everywhere Distinct s) : r.tree = s := by
  induction path generalizing s r with
  | nil => cases hnone
  | cons component path ih =>
    rw [setAll] at hr
    rw [allSection] at hnone
    cases hid : (Slots.equalRange (changeCase o component) s.isections).head? with
    | none =>
      rw [hid] at hr
      cases hr
      rfl
    | some id =>
      rw [hid] at hr hnone
      dsimp only at hr hnone
      unfold descend at hr
      split at hr
      next t ht =>
        rw [ht] at hnone
        obtain ⟨q, hq, rfl⟩ := Option.map_eq_some_iff.mp hr
        dsimp only
        rw [ih hnone hq (h.inside id t (Slots.mem_of_find ht)), replace_same h.here ht]
      · cases hr

lemma onlyAt_setAll (path : List Text) (hr : setAll o v path s = some r) : OnlyAt o path s r.tree := by
  induction path generalizing s r with
  | nil => trivial
  | cons component path ih =>
    rw [setAll] at hr
    cases hid : (Slots.equalRange (changeCase o component) s.isections).head? with
    | none =>
      rw [hid] at hr
      cases hr
      exact .inl rfl
    | some id =>
      rw [hid] at hr
      dsimp only at hr
      unfold descend at hr
      split at hr
      next t ht =>
        obtain ⟨q, hq, rfl⟩ := Option.map_eq_some_iff.mp hr
        exact .inr ⟨id, t, q.tree, hid, by rw [SectionOf.sectionAt, ht], rfl, ih hq⟩
      · cases hr

/-- The writes of properties, with the property told by the first component. -/
lemma write_prop_cases {rewrite : Bool} {c : Text} {path : List Text} (hflat : o.flat = false)
    (hall : c ≠ ascii "all") (hr : s.write o rewrite (c :: path) v = some r) :
    r = ⟨s, [], false⟩ ∨ (∃ what, valueWhat c = some what ∧ setValue o v what path s = some r) ∨
      ∃ what, sectionWhat rewrite c = some what ∧ setSectionProp o v what path s = some r := by
  unfold write at hr
  dsimp only at hr
  rw [hflat, if_neg Bool.false_ne_true, if_neg hall] at hr
  split at hr
  · cases hr
    exact .inl rfl
  · split at hr
    next hc => exact .inr (.inl ⟨_, if_pos hc, hr⟩)
    next hv =>
      split at hr
      next hc => exact .inr (.inl ⟨_, by rw [valueWhat, if_neg hv, if_pos hc], hr⟩)
      next hvc =>
        split at hr
        next hc => exact .inr (.inl ⟨_, by rw [valueWhat, if_neg hv, if_neg hvc, if_pos hc], hr⟩)
        next hvt =>
          split at hr
          next hc => exact .inr (.inr ⟨_, if_pos hc, hr⟩)
          next hs =>
            split at hr
            next hc => exact .inr (.inr ⟨_, by rw [sectionWhat, if_neg hs, if_pos hc], hr⟩)
            next hst =>
              split at hr
              next hc => exact .inr (.inr ⟨_, by rw [sectionWhat, if_neg hs, if_neg hst, if_pos hc], hr⟩)
              next =>
                cases hr
                exact .inl rfl

end

/-- A write that fails changes nothing when it is refused at once. Otherwise, except where it replaces a
whole section, all elements stay with their names and values in their order, and with their properties
where names are not repeated; where it replaces a section, nothing else changes. -/
theorem failed_write (o : Options) (rewrite : Bool) (p : List Text) (v : YCPValue) (s : IniSection) (r : Outcome)
    (h : Everywhere Distinct s) (hr : s.write o rewrite p v = some r) (hfail : r.ok = false) :
    (RefusedAtOnce o rewrite v s p → r.tree = s) ∧
      ((o.flat = true ∨ p.head? ≠ some (ascii "all")) → Kept o s r.tree) ∧
      (o.flat = false → ∀ path, p = ascii "all" :: path → OnlyAt o path s r.tree) := by
  cases p with
  | nil =>
    cases hr
    exact ⟨fun _ => rfl, fun _ => kept_refl h, fun _ path hp => nomatch hp⟩
  | cons c path =>
    cases hflat : o.flat with
    | true =>
      have hvalue : s.setMyValue o c v (if path.head? = some (ascii "comment") then .comment else .value) = some r := by
        unfold write at hr
        dsimp only at hr
        rwa [hflat, if_pos rfl] at hr
      refine ⟨fun hrefused => ?_, fun _ => (kept_setMyValue h hvalue hfail).1, fun hnot => nomatch hnot⟩
      rw [RefusedAtOnce, hflat, if_pos rfl] at hrefused
      exact same_setMyValue hrefused hvalue hfail
    | false =>
      by_cases hall : c = ascii "all"
      · subst hall
        have hset : setAll o v path s = some r := by
          unfold write at hr
          dsimp only at hr
          rwa [hflat, if_neg Bool.false_ne_true, if_pos rfl] at hr
        refine ⟨fun hrefused => ?_, fun hnot => ?_, fun _ path' hp => ?_⟩
        · rw [RefusedAtOnce, hflat, if_neg Bool.false_ne_true] at hrefused
          exact setAll_missing path (hrefused.1 rfl) hset h
        · rcases hnot with hnot | hnot
          · cases hnot
          · exact absurd rfl hnot
        · cases hp
          exact onlyAt_setAll path hset
      · refine ⟨fun hrefused => ?_, fun _ => ?_, fun _ path' hp => absurd (List.cons.inj hp).1 hall⟩
        · rw [RefusedAtOnce, hflat, if_neg Bool.false_ne_true] at hrefused
          rcases write_prop_cases hflat hall hr with rfl | ⟨what, hwhat, hset⟩ | ⟨what, hwhat, hset⟩
          · rfl
          · exact same_setValue path h (hrefused.2.1 what hwhat) hset hfail
          · exact same_setSectionProp path h (hrefused.2.2 what hwhat) hset hfail
        · rcases write_prop_cases hflat hall hr with rfl | ⟨what, hwhat, hset⟩ | ⟨what, hwhat, hset⟩
          · exact kept_refl h
          · exact (kept_setValue path h hset hfail).1
          · exact (kept_setSectionProp path h hset hfail).1

/-- The comment of a value is a number: nothing changes. -/
theorem failed_write_comment :
    ∃ r, (IniSection.new.pushValue [107] IniEntry.new).write .plain false [ascii "vc", [107]] (.integer 5) = some r ∧
      r.ok = false ∧ r.tree = IniSection.new.pushValue [107] IniEntry.new := by
  have h : Everywhere Distinct (IniSection.new.pushValue [107] IniEntry.new) :=
    .intro (List.nodup_singleton 1) fun id t ht => by simp [SectionOf.pushValue, Slots.push, IniSection.new] at ht
  refine ⟨_, rfl, rfl, ?_⟩
  refine (failed_write .plain false [ascii "vc", [107]] (.integer 5) _ _ h rfl rfl).1
    ⟨fun hall => ?_, fun what hwhat => ?_, fun what hwhat => ?_⟩
  · exact absurd hall (by decide)
  · have hcomment : what = .comment := (Option.some.inj hwhat).symm
    subst hcomment
    intro prop props hprops
    cases hprops
    exact .inr fun e => rfl
  · cases hwhat

/-- The comment of a value that is not there adds its section; a list of comments with a number in it sets
those before; the fields of a section are taken over up to the missing one. -/
theorem failed_write_changes :
    (∃ r, IniSection.new.write .plain false [ascii "vc", [97], [107]] (.string [99]) = some r ∧ r.ok = false ∧
      r.tree.container.length = 1) ∧
    (∃ r, ((IniSection.new.pushValue [107] IniEntry.new).pushValue [107] IniEntry.new).write .repeated false
        [ascii "vc", [107]] (.list [.string [99], .integer 5]) = some r ∧ r.ok = false ∧
      r.tree.getMyValue .repeated [107] .comment = some (some (.list [.string [99], .string []]))) ∧
    ∃ r, IniSection.new.write .plain false [ascii "all"] (.map [(.string (ascii "name"), .string [120])]) = some r ∧
      r.ok = false ∧ r.tree.name = [120] := by
  refine ⟨⟨_, rfl, rfl, rfl⟩, ⟨_, rfl, rfl, rfl⟩, ?_⟩
  have hname : getMapString [(.string (ascii "name"), .string [120])] (ascii "name") = some [120] := by
    rw [getMapString, YCPValue.mapValue_cons_self rfl]
  have htype : getMapInteger [(.string (ascii "name"), .string [120])] (ascii "type") = none := by
    have hne : YCPValue.string (ascii "name") ≠ .string (ascii "type") := fun h => by
      have hnot : ascii "name" ≠ ascii "type" := by decide
      exact hnot (YCPValue.string.inj h)
    rw [getMapInteger, YCPValue.mapValue_cons_of_ne rfl rfl hne]
    rfl
  have hbase : IniSection.new.toIniBase.setAllDoIt [(.string (ascii "name"), .string [120])] =
      ({ IniSection.new.toIniBase with dirty := true, name := [120] }, false) := by
    unfold IniBase.setAllDoIt
    rw [hname, htype]
  refine ⟨_, setAllDoIt_incomplete (by rw [hbase]), rfl, ?_⟩
  rw [hbase]

end SectionOf

end YastCore.Ini
