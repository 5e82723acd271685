import YastCore.Ini.Index

/-!
# The entries of an ini tree

A tree as the relation between keys and entries that stands for it. A key is the names of the sections on
the way and the name of the value. Every operation changes the entries of the keys that it names and no
others.
-/

namespace YastCore.Ini

open Lines

/-- What an element adds to the entries of a key. -/
def EntryOf (o : Options) : List Text → IniEntry → Element → Prop
  | [], _, _ => False
  | c :: p, e, .value e' => p = [] ∧ c = changeCase o e'.getName ∧ e' = e
  | c :: p, e, .section t => c = changeCase o t.getName ∧ ∃ x ∈ t.container, EntryOf o p e x.2

def EntryIn (o : Options) (p : List Text) (e : IniEntry) (container : List (Nat × Element)) : Prop :=
  ∃ x ∈ container, EntryOf o p e x.2

/-- The tree has an entry under a key. -/
def Entry (o : Options) (p : List Text) (e : IniEntry) (s : IniSection) : Prop := EntryIn o p e s.container

/-- No two sections and no two values have the same name. -/
structure Unique (o : Options) (s : IniSection) : Prop where
  sections : ∀ i j t u, (i, Element.section t) ∈ s.container → (j, Element.section u) ∈ s.container →
    changeCase o t.getName = changeCase o u.getName → i = j
  values : ∀ i j d e, (i, Element.value d) ∈ s.container → (j, Element.value e) ∈ s.container →
    changeCase o d.getName = changeCase o e.getName → i = j

/-- The keys of values below a section. -/
def Under (q p : List Text) : Prop := q <+: p ∧ q.length < p.length

section

variable {o : Options} {s s' : IniSection} {p : List Text} {e : IniEntry} {k : Text} {id : Nat}

@[simp] lemma entryOf_nil {x : Element} : ¬ EntryOf o [] e x := by
  cases x <;> exact id

lemma entryOf_value {e' : IniEntry} : EntryOf o p e (.value e') ↔ p = [changeCase o e'.getName] ∧ e' = e := by
  cases p with
  | nil => simp
  | cons c p =>
    rw [EntryOf, List.cons.injEq]
    tauto

lemma entryOf_section {t : IniSection} :
    EntryOf o p e (.section t) ↔ ∃ p', p = changeCase o t.getName :: p' ∧ Entry o p' e t := by
  cases p with
  | nil => simp
  | cons c p =>
    simp only [EntryOf, List.cons.injEq]
    constructor
    · rintro ⟨hc, hx⟩
      exact ⟨p, ⟨hc, rfl⟩, hx⟩
    · rintro ⟨p', ⟨hc, rfl⟩, hx⟩
      exact ⟨hc, hx⟩

lemma not_entry_nil : ¬ Entry o [] e s := by
  rintro ⟨x, hx, hof⟩
  exact entryOf_nil hof

/-! ### Elementary changes -/

lemma entryIn_push {container : List (Nat × Element)} {x : Element} :
    EntryIn o p e (Slots.push x container) ↔ EntryIn o p e container ∨ EntryOf o p e x := by
  constructor
  · rintro ⟨y, hy, hof⟩
    rcases Slots.mem_push.mp hy with hy | rfl
    · exact .inl ⟨y, hy, hof⟩
    · exact .inr hof
  · rintro (⟨y, hy, hof⟩ | hof)
    · exact ⟨y, Slots.mem_push.mpr (.inl hy), hof⟩
    · exact ⟨_, Slots.mem_push.mpr (.inr rfl), hof⟩

/-- The entries of the other elements. -/
def Others (o : Options) (p : List Text) (e : IniEntry) (ids : List Nat) (container : List (Nat × Element)) :
    Prop :=
  ∃ x ∈ container, x.1 ∉ ids ∧ EntryOf o p e x.2

lemma entryIn_replace {container : List (Nat × Element)} {x y : Element} (hx : (id, x) ∈ container) :
    EntryIn o p e (Slots.replace id y container) ↔ EntryOf o p e y ∨ Others o p e [id] container := by
  constructor
  · rintro ⟨z, hz, hof⟩
    rcases Slots.mem_replace hz with ⟨hz, hne⟩ | rfl
    · exact .inr ⟨z, hz, by simpa using hne, hof⟩
    · exact .inl hof
  · rintro (hof | ⟨z, hz, hne, hof⟩)
    · exact ⟨(id, y), List.mem_map.mpr ⟨_, hx, if_pos rfl⟩, hof⟩
    · exact ⟨z, List.mem_map.mpr ⟨z, hz, if_neg (by simpa using hne)⟩, hof⟩

lemma entryIn_iff_others {container : List (Nat × Element)} {x : Element}
    (hc : (container.map Prod.fst).Nodup) (hx : (id, x) ∈ container) :
    EntryIn o p e container ↔ EntryOf o p e x ∨ Others o p e [id] container := by
  constructor
  · rintro ⟨y, hy, hof⟩
    by_cases hid : y.1 = id
    · have hyx : y.2 = x := Slots.mem_unique hc (hid ▸ hy) hx
      exact .inl (hyx ▸ hof)
    · exact .inr ⟨y, hy, by simpa using hid, hof⟩
  · rintro (hof | ⟨y, hy, -, hof⟩)
    · exact ⟨_, hx, hof⟩
    · exact ⟨y, hy, hof⟩

/-- Values of a key, all of them: what is left without them. -/
lemma others_values (h : Indexed o s) :
    Others o p e (Slots.equalRange k s.ivalues) s.container ↔ p ≠ [k] ∧ Entry o p e s := by
  constructor
  · rintro ⟨⟨i, x⟩, hx, hnot, hof⟩
    refine ⟨?_, _, hx, hof⟩
    rintro rfl
    cases x with
    | value e' =>
      rw [entryOf_value] at hof
      refine hnot (Slots.mem_equalRange.mpr (h.values.mem_iff.mpr ?_))
      refine List.mem_filterMap.mpr ⟨_, hx, ?_⟩
      have hk : k = changeCase o e'.getName := List.head_eq_of_cons_eq hof.1
      rw [hk]
      rfl
    | «section» t =>
      obtain ⟨p', heq, hof⟩ := entryOf_section.mp hof
      cases heq
      exact not_entry_nil hof
  · rintro ⟨hp, ⟨i, x⟩, hx, hof⟩
    refine ⟨_, hx, fun hid => hp ?_, hof⟩
    obtain ⟨y, hy, hkey⟩ := h.values.mem (Slots.mem_equalRange.mp hid)
    have hxy := Slots.mem_unique h.distinct hx hy
    subst hxy
    cases x with
    | value e' =>
      rw [entryOf_value] at hof
      rw [hof.1, Option.some.inj hkey]
    | «section» t => cases hkey

/-- Sections of a name, all of them: what is left without them. -/
lemma others_sections (h : Indexed o s) :
    Others o p e (Slots.equalRange k s.isections) s.container ↔ ¬ Under [k] p ∧ Entry o p e s := by
  constructor
  · rintro ⟨⟨i, x⟩, hx, hnot, hof⟩
    refine ⟨?_, _, hx, hof⟩
    rintro ⟨⟨p', rfl⟩, hlt⟩
    cases x with
    | value e' =>
      rw [entryOf_value] at hof
      cases hof.1
      simp at hlt
    | «section» t =>
      obtain ⟨p', heq, -⟩ := entryOf_section.mp hof
      refine hnot (Slots.mem_equalRange.mpr (h.sections.mem_iff.mpr ?_))
      refine List.mem_filterMap.mpr ⟨_, hx, ?_⟩
      have hk : k = changeCase o t.getName := List.head_eq_of_cons_eq heq
      rw [hk]
      rfl
  · rintro ⟨hp, ⟨i, x⟩, hx, hof⟩
    refine ⟨_, hx, fun hid => hp ?_, hof⟩
    obtain ⟨y, hy, hkey⟩ := h.sections.mem (Slots.mem_equalRange.mp hid)
    have hxy := Slots.mem_unique h.distinct hx hy
    subst hxy
    cases x with
    | value e' => cases hkey
    | «section» t =>
      obtain ⟨p', rfl, hin⟩ := entryOf_section.mp hof
      have hk : changeCase o t.getName = k := Option.some.inj hkey
      rw [hk]
      refine ⟨⟨p', rfl⟩, ?_⟩
      cases p' with
      | nil => exact absurd hin not_entry_nil
      | cons c p' => simp

/-- With unique names a key has one entry. -/
lemma entry_unique {e' : IniEntry} (h : Everywhere Distinct s) (hu : Everywhere (Unique o) s) (he : Entry o p e s)
    (he' : Entry o p e' s) : e = e' := by
  induction p generalizing s with
  | nil => exact absurd he not_entry_nil
  | cons c p ih =>
    obtain ⟨⟨i, x⟩, hx, hof⟩ := he
    obtain ⟨⟨j, y⟩, hy, hof'⟩ := he'
    cases x with
    | value d =>
      cases y with
      | value d' =>
        obtain ⟨hp, rfl⟩ := entryOf_value.mp hof
        obtain ⟨hp', rfl⟩ := entryOf_value.mp hof'
        have hij := hu.here.values i j d d' hx hy (List.head_eq_of_cons_eq (hp.symm.trans hp'))
        subst hij
        cases Slots.mem_unique h.here hx hy
        rfl
      | «section» u =>
        have hp := List.tail_eq_of_cons_eq (entryOf_value.mp hof).1
        subst hp
        obtain ⟨p', heq, hin⟩ := entryOf_section.mp hof'
        cases heq
        exact absurd hin not_entry_nil
    | «section» t =>
      obtain ⟨p', heq, hin⟩ := entryOf_section.mp hof
      obtain ⟨hc, rfl⟩ := List.cons.inj heq
      cases y with
      | value d' =>
        have hp := List.tail_eq_of_cons_eq (entryOf_value.mp hof').1
        subst hp
        exact absurd hin not_entry_nil
      | «section» u =>
        obtain ⟨p', heq', hin'⟩ := entryOf_section.mp hof'
        obtain ⟨hc', rfl⟩ := List.cons.inj heq'
        have hij := hu.here.sections i j t u hx hy (hc.symm.trans hc')
        subst hij
        cases Slots.mem_unique h.here hx hy
        exact ih (h.inside _ t hx) (hu.inside _ t hx) hin hin'

lemma entry_congr (hc : s'.container = s.container) : Entry o p e s' ↔ Entry o p e s := by
  rw [Entry, hc, Entry]

lemma entry_pushValue {e' : IniEntry} : Entry o p e (s.pushValue k e') ↔ Entry o p e s ∨ EntryOf o p e (.value e') :=
  entryIn_push

lemma entryOf_copyElement (p : List Text) (x : Element) :
    EntryOf o p e (copyElement o x) ↔ EntryOf o p e x := by
  induction p generalizing x with
  | nil => simp
  | cons c p ih =>
    cases x with
    | value e' => rfl
    | «section» t =>
      have hcontainer : (copySection o t).container = copyContainer o t.container := by
        rw [copySection_eq]
        rfl
      rw [copyElement, EntryOf, EntryOf, hcontainer, IniBase.getName, IniBase.getName, name_copySection,
        copyContainer_eq]
      refine and_congr Iff.rfl ⟨?_, ?_⟩
      · rintro ⟨y, hy, hof⟩
        obtain ⟨z, hz, rfl⟩ := List.mem_map.mp hy
        exact ⟨z, hz, (ih z.2).mp hof⟩
      · rintro ⟨z, hz, hof⟩
        exact ⟨_, List.mem_map.mpr ⟨z, hz, rfl⟩, (ih z.2).mpr hof⟩

/-- A copy of a section has its entries. -/
lemma entry_pushSection {t : IniSection} :
    Entry o p e (s.pushSection o k t) ↔ Entry o p e s ∨ EntryOf o p e (.section t) := by
  have hcopy : copyElement o (.section t) = .section (copySection o t) := rfl
  rw [Entry, SectionOf.pushSection, entryIn_push, ← hcopy, entryOf_copyElement, Entry]

lemma not_entryOf_named : ¬ EntryOf o p e (.section (IniSection.named k)) := by
  rw [entryOf_section]
  rintro ⟨p', -, x, hx, -⟩
  exact List.not_mem_nil hx

/-- A section that is changed, while no other has its name. -/
lemma entry_replaceSection {t t' : IniSection} (h : Distinct s) (ht : (id, Element.section t) ∈ s.container)
    (hkey : changeCase o t'.getName = changeCase o t.getName)
    (hunique : ∀ i u, (i, Element.section u) ∈ s.container → changeCase o u.getName = changeCase o t.getName →
      i = id) :
    Entry o p e (s.replace id (.section t')) ↔
      (∃ p', p = changeCase o t.getName :: p' ∧ Entry o p' e t') ∨
        (¬ Under [changeCase o t.getName] p ∧ Entry o p e s) := by
  have hothers : Others o p e [id] s.container ↔ ¬ Under [changeCase o t.getName] p ∧ Entry o p e s := by
    constructor
    · rintro ⟨⟨i, x⟩, hx, hne, hof⟩
      refine ⟨?_, _, hx, hof⟩
      rintro ⟨⟨p', rfl⟩, hlt⟩
      cases x with
      | value e' =>
        rw [entryOf_value] at hof
        rw [hof.1] at hlt
        exact absurd hlt (by simp)
      | «section» u =>
        obtain ⟨p'', heq, -⟩ := entryOf_section.mp hof
        have hu : changeCase o u.getName = changeCase o t.getName := (List.head_eq_of_cons_eq heq).symm
        exact hne (by rw [hunique i u hx hu]; exact List.mem_cons_self)
    · rintro ⟨hp, hentry⟩
      rcases (entryIn_iff_others h ht).mp hentry with hof | hothers
      · obtain ⟨p', rfl, hin⟩ := entryOf_section.mp hof
        refine absurd ⟨⟨p', rfl⟩, ?_⟩ hp
        cases p' with
        | nil => exact absurd hin not_entry_nil
        | cons c p' => simp
      · exact hothers
  rw [Entry, SectionOf.replace, entryIn_replace ht, hothers, entryOf_section, hkey]

/-- The entries below a section, while no other has its name. -/
lemma entry_cons {t : IniSection} (ht : (id, Element.section t) ∈ s.container) (h : Distinct s)
    (hunique : ∀ i u, (i, Element.section u) ∈ s.container → changeCase o u.getName = changeCase o t.getName →
      i = id) (hp : p ≠ []) :
    Entry o (changeCase o t.getName :: p) e s ↔ Entry o p e t := by
  constructor
  · rintro ⟨⟨i, x⟩, hx, hof⟩
    cases x with
    | value e' =>
      rw [entryOf_value] at hof
      exact absurd (List.tail_eq_of_cons_eq hof.1) hp
    | «section» u =>
      obtain ⟨p', heq, hin⟩ := entryOf_section.mp hof
      obtain ⟨hu, rfl⟩ := List.cons.inj heq
      have hid := hunique i u hx hu.symm
      subst hid
      cases Slots.mem_unique h hx ht
      exact hin
  · intro hin
    exact ⟨_, ht, entryOf_section.mpr ⟨p, rfl, hin⟩⟩

end

namespace SectionOf

variable {o : Options} {s : IniSection} {p : List Text} {e : IniEntry} {k : Text} {id : Nat}

lemma container_delValues (ids : List Nat) :
    (ids.foldl delValue1 s).container = s.container.filter fun x => x.1 ∉ ids := by
  induction ids generalizing s with
  | nil => simp
  | cons id ids ih =>
    rw [List.foldl_cons, ih]
    change (Slots.erase id s.container).filter _ = _
    rw [Slots.erase, List.filter_filter]
    refine List.filter_congr fun x _ => ?_
    by_cases hx : x.1 = id <;> simp [hx]

lemma container_delSections (ids : List Nat) :
    (ids.foldl delSection1 s).container = s.container.filter fun x => x.1 ∉ ids := by
  induction ids generalizing s with
  | nil => simp
  | cons id ids ih =>
    rw [List.foldl_cons, ih]
    change (Slots.erase id s.container).filter _ = _
    rw [Slots.erase, List.filter_filter]
    refine List.filter_congr fun x _ => ?_
    by_cases hx : x.1 = id <;> simp [hx]

lemma entryIn_filter {container : List (Nat × Element)} (ids : List Nat) :
    EntryIn o p e (container.filter fun x => x.1 ∉ ids) ↔ Others o p e ids container := by
  simp only [EntryIn, Others, List.mem_filter, decide_eq_true_eq, and_assoc]

/-- The entries after all values of a key are deleted. -/
lemma entry_delMyValue (h : Indexed o s) : Entry o p e (s.delMyValue k) ↔ p ≠ [k] ∧ Entry o p e s := by
  rw [Entry, delMyValue, container_delValues, entryIn_filter, others_values h]

/-! ### Values -/

/-- A write of a property leaves one entry under its key, or fails and changes no entry. -/
def ValueEffect (o : Options) (what : ValueProp) (text : Text) (q : List Text) (s s' : IniSection) : Prop :=
  (what ≠ .value ∧ ∀ p e, Entry o p e s' ↔ Entry o p e s) ∨
    ∃ e', e'.dirty = true ∧ (what = .value → e'.val = text) ∧
      (what ≠ .value → ∃ e₀, Entry o q e₀ s ∧ e'.val = e₀.val) ∧
      ∀ p e, Entry o p e s' ↔ (p = q ∧ e = e') ∨ (p ≠ q ∧ Entry o p e s)

lemma nodup_equalRange {κ : Type} [DecidableEq κ] {key : Element → Option κ} {index : List (κ × Nat)}
    {container : List (Nat × Element)} (h : Slots.Indexes key index container)
    (hc : (container.map Prod.fst).Nodup) (k : κ) : (Slots.equalRange k index).Nodup := by
  have hsnd : ((Slots.entries key container).map Prod.snd).Sublist (container.map Prod.fst) := by
    clear h hc
    induction container with
    | nil => exact .slnil
    | cons x container ih =>
      cases hx : key x.2 with
      | none => simpa [Slots.entries, hx] using ih.cons x.1
      | some j => simpa [Slots.entries, hx] using ih.cons_cons x.1
  have hnodup : (index.map Prod.snd).Nodup := ((List.Perm.map _ h).nodup_iff).mpr (hc.sublist hsnd)
  exact hnodup.sublist (List.Sublist.map _ List.filter_sublist)

lemma setProp_spec {what : ValueProp} {e e' : IniEntry} {prop : YCPValue} (h : e.setProp o what prop = some e') :
    e'.dirty = true ∧ (what = .value → e'.val = valueText o prop) ∧ (what ≠ .value → e'.val = e.val) := by
  unfold IniEntry.setProp at h
  split at h <;> cases h
  · exact ⟨rfl, fun _ => rfl, fun hne => absurd rfl hne⟩
  · exact ⟨rfl, nofun, fun _ => rfl⟩
  · exact ⟨rfl, nofun, fun _ => rfl⟩

lemma effect_setMyValue {component : Text} {v : YCPValue} {what : ValueProp} {r : Outcome} (h : Indexed o s)
    (hrepeat : o.repeat_names = false) (hc : 0 ∉ component) (hr : s.setMyValue o component v what = some r) :
    ValueEffect o what (valueText o v) [changeCase o component] s r.tree := by
  have hprops : propsOf o v = some [v] := by
    unfold propsOf
    rw [if_neg (by simp [hrepeat])]
  unfold setMyValue at hr
  rw [hprops] at hr
  dsimp only at hr
  have hothers : ∀ {p e}, Others o p e (Slots.equalRange (changeCase o component) s.ivalues) s.container ↔
      p ≠ [changeCase o component] ∧ Entry o p e s := others_values h
  have hnodup := nodup_equalRange h.values h.distinct (changeCase o component)
  have hmem : ∀ id ∈ Slots.equalRange (changeCase o component) s.ivalues, ∃ e,
      (id, Element.value e) ∈ s.container ∧ changeCase o e.getName = changeCase o component := by
    intro id hid
    obtain ⟨y, hy, hkey⟩ := h.values.mem (Slots.mem_equalRange.mp hid)
    cases y with
    | value e => exact ⟨e, hy, Option.some.inj hkey⟩
    | «section» t => cases hkey
  generalize Slots.equalRange (changeCase o component) s.ivalues = ids at hr hothers hnodup hmem
  cases ids with
  | nil =>
    rw [setMyLoop] at hr
    split at hr
    · cases hr
    · split at hr
      next hwhat =>
        cases hr
        exact .inl ⟨hwhat, fun _ _ => Iff.rfl⟩
      next hwhat =>
        cases hr
        let e' := { IniEntry.new with dirty := true, name := changeCase o component, val := valueText o v }
        have hname : changeCase o e'.getName = changeCase o component := changeCase_cut_changeCase o hc
        refine .inr ⟨e', rfl, fun _ => rfl, fun hne => absurd (not_not.mp hwhat) hne, fun p e => ?_⟩
        have hpush : Entry o p e (s.pushValue (changeCase o component) e') ↔ _ := entry_pushValue
        have hsplit : Entry o p e s ↔ p ≠ [changeCase o component] ∧ Entry o p e s := by
          rw [← hothers, Others, Entry, EntryIn]
          simp
        refine (entry_congr rfl).trans (hpush.trans ?_)
        rw [entryOf_value, hname, hsplit]
        constructor
        · rintro (h | ⟨hp, he⟩)
          · exact .inr ⟨h.1, h.1, h.2⟩
          · exact .inl ⟨hp, he.symm⟩
        · rintro (⟨hp, he⟩ | h)
          · exact .inr ⟨hp, he.symm⟩
          · exact .inl h.2
  | cons id ids =>
    obtain ⟨e₀, he₀, hkey₀⟩ := hmem id List.mem_cons_self
    have hfind := Slots.find_of_mem h.distinct he₀
    rw [setMyLoop] at hr
    split at hr
    · cases hr
    · rw [hfind] at hr
      dsimp only at hr
      split at hr
      next hnone =>
        cases hr
        refine .inl ⟨?_, fun _ _ => Iff.rfl⟩
        rintro rfl
        cases hnone
      next e' he' =>
        cases hr
        have hspec := setProp_spec he'
        have hname : changeCase o e'.getName = changeCase o component := by
          rw [← hkey₀, IniBase.getName, IniBase.getName, name_setProp he']
        refine .inr ⟨e', hspec.1, hspec.2.1, fun hne => ⟨e₀, ?_, hspec.2.2 hne⟩, fun p e => ?_⟩
        · exact ⟨_, he₀, entryOf_value.mpr ⟨by rw [hkey₀], rfl⟩⟩
        · have hid : id ∉ ids := (List.nodup_cons.mp hnodup).1
          have hcontainer : Entry o p e (ids.foldl delValue1 (s.replace id (.value e'))) ↔
              EntryOf o p e (.value e') ∨ Others o p e (id :: ids) s.container := by
            rw [Entry, container_delValues, entryIn_filter]
            constructor
            · rintro ⟨x, hx, hnot, hof⟩
              rcases Slots.mem_replace hx with ⟨hx, hne⟩ | rfl
              · exact .inr ⟨x, hx, by simp [hne, hnot], hof⟩
              · exact .inl hof
            · rintro (hof | ⟨x, hx, hnot, hof⟩)
              · exact ⟨(id, .value e'), List.mem_map.mpr ⟨_, he₀, if_pos rfl⟩, hid, hof⟩
              · rw [List.mem_cons, not_or] at hnot
                exact ⟨x, List.mem_map.mpr ⟨x, hx, if_neg hnot.1⟩, hnot.2, hof⟩
          refine (entry_congr rfl).trans (hcontainer.trans ?_)
          rw [hothers, entryOf_value, hname]
          refine or_congr (and_congr Iff.rfl eq_comm) Iff.rfl

/-! ### Paths -/

/-- The only section with a name. -/
structure Only (o : Options) (s : IniSection) (id : Nat) (t : IniSection) (k : Text) : Prop where
  mem : (id, Element.section t) ∈ s.container
  key : changeCase o t.getName = k
  only : ∀ i u, (i, Element.section u) ∈ s.container → changeCase o u.getName = k → i = id

lemma only_of_mem {t : IniSection} (h : Unique o s) (ht : (id, Element.section t) ∈ s.container)
    (hkey : changeCase o t.getName = k) : Only o s id t k :=
  ⟨ht, hkey, fun i u hu hk => h.sections i id u t hu ht (hk.trans hkey.symm)⟩

lemma only_of_range {t : IniSection} (h : Indexed o s) (hu : Unique o s)
    (hid : id ∈ Slots.equalRange k s.isections) (ht : Assoc.find id s.container = some (.section t)) :
    Only o s id t k := by
  have hmem := Slots.mem_of_find ht
  obtain ⟨y, hy, hkey⟩ := h.sections.mem (Slots.mem_equalRange.mp hid)
  rw [Slots.mem_unique h.distinct hy hmem] at hkey
  exact only_of_mem hu hmem (Option.some.inj hkey)

lemma no_section {t : IniSection} (h : Indexed o s) (hnone : (Slots.equalRange k s.isections).getLast? = none)
    (ht : (id, Element.section t) ∈ s.container) : changeCase o t.getName ≠ k := by
  intro hkey
  have hid : id ∈ Slots.equalRange k s.isections := by
    refine Slots.mem_equalRange.mpr (h.sections.mem_iff.mpr (List.mem_filterMap.mpr ⟨_, ht, ?_⟩))
    rw [← hkey]
    rfl
  rw [List.getLast?_eq_none_iff] at hnone
  rw [hnone] at hid
  exact List.not_mem_nil hid

/-- The section that a path goes on with: there, or added without entries. -/
lemma lastSection_spec (h : Everywhere (Indexed o) s) (hu : Everywhere (Unique o) s)
    (hk : changeCase o (cut k) = k) {t : IniSection}
    (ht : Assoc.find (s.lastSection o k).2 (s.lastSection o k).1.container = some (.section t)) :
    Only o (s.lastSection o k).1 (s.lastSection o k).2 t k ∧ Everywhere (Unique o) t ∧
      ∀ p e, Entry o p e (s.lastSection o k).1 ↔ Entry o p e s := by
  unfold lastSection at ht ⊢
  split at ht
  next id hid =>
    have honly := only_of_range h.here hu.here (List.mem_of_getLast? hid) ht
    exact ⟨honly, hu.inside _ t honly.mem, fun _ _ => Iff.rfl⟩
  next hnone =>
    have hnew := Slots.mem_unique (Slots.nodup_push h.here.distinct _) (Slots.mem_of_find ht)
      (Slots.mem_push.mpr (.inr rfl))
    cases hnew
    refine ⟨⟨Slots.mem_of_find ht, ?_, fun i u hmem hkey => ?_⟩, ?_, fun p e => ?_⟩
    · rw [IniBase.getName, name_copySection]
      exact hk
    · rcases Slots.mem_push.mp hmem with hmem | heq
      · exact absurd hkey (no_section h.here hnone hmem)
      · exact congrArg Prod.fst heq
    · refine .intro ⟨?_, ?_⟩ fun _ _ hmem => absurd hmem List.not_mem_nil
      · exact fun _ _ _ _ hmem => absurd hmem List.not_mem_nil
      · exact fun _ _ _ _ hmem => absurd hmem List.not_mem_nil
    · dsimp only
      rw [entry_pushSection]
      exact or_iff_left not_entryOf_named

lemma entry_replaceOnly {t t' : IniSection} (h : Distinct s) (ht : Only o s id t k)
    (hkey : changeCase o t'.getName = k) :
    Entry o p e (s.replace id (.section t')) ↔
      (∃ p', p = k :: p' ∧ Entry o p' e t') ∨ (¬ Under [k] p ∧ Entry o p e s) := by
  obtain ⟨hmem, rfl, honly⟩ := ht
  exact entry_replaceSection h hmem hkey honly

lemma entry_only {t : IniSection} (h : Distinct s) (ht : Only o s id t k) (hp : p ≠ []) :
    Entry o (k :: p) e s ↔ Entry o p e t := by
  obtain ⟨hmem, rfl, honly⟩ := ht
  exact entry_cons hmem h honly hp

lemma under_singleton : Under [k] p ↔ ∃ p', p = k :: p' ∧ p' ≠ [] := by
  constructor
  · rintro ⟨⟨p', rfl⟩, hlt⟩
    refine ⟨p', rfl, ?_⟩
    rintro rfl
    exact absurd hlt (by simp)
  · rintro ⟨p', rfl, hp⟩
    refine ⟨⟨p', rfl⟩, ?_⟩
    have := List.length_pos_of_ne_nil hp
    simp only [List.length_cons, List.length_nil]
    omega

/-- What happens to the entries of the only section with a name happens to the tree. -/
lemma entry_lift {t t' : IniSection} {F : Prop} (h : Distinct s) (ht : Only o s id t k)
    (hkey : changeCase o t'.getName = k) (hF : ∀ p', p = k :: p' → p' ≠ [] → (Entry o p' e t' ↔ F))
    (hsame : ¬ Under [k] p → (Entry o p e s ↔ F)) :
    Entry o p e (s.replace id (.section t')) ↔ F := by
  rw [entry_replaceOnly h ht hkey]
  by_cases hp : Under [k] p
  · obtain ⟨p', rfl, hne⟩ := under_singleton.mp hp
    rw [← hF p' rfl hne]
    constructor
    · rintro (⟨p'', heq, hin⟩ | ⟨hnot, -⟩)
      · cases heq
        exact hin
      · exact absurd hp hnot
    · exact fun hin => .inl ⟨p', rfl, hin⟩
  · rw [← hsame hp]
    constructor
    · rintro (⟨p', rfl, hin⟩ | ⟨-, hin⟩)
      · refine absurd (under_singleton.mpr ⟨p', rfl, ?_⟩) hp
        rintro rfl
        exact not_entry_nil hin
      · exact hin
    · exact fun hin => .inr ⟨hp, hin⟩

lemma effect_setValue {v : YCPValue} {what : ValueProp} (path : List Text) {r : Outcome} (hpath : path ≠ [])
    (h : Everywhere (Indexed o) s) (hu : Everywhere (Unique o) s) (hrepeat : o.repeat_names = false)
    (hnul : ∀ c ∈ path, 0 ∉ c) (hr : setValue o v what path s = some r) :
    ValueEffect o what (valueText o v) (path.map (changeCase o)) s r.tree := by
  induction path generalizing s r with
  | nil => exact absurd rfl hpath
  | cons component path ih =>
    have hc := hnul component List.mem_cons_self
    cases path with
    | nil => exact effect_setMyValue h.here hrepeat hc hr
    | cons c path =>
      have hlast := keeps_lastSection h (changeCase_cut_changeCase o hc)
      have hr : (s.lastSection o (changeCase o component)).1.descend (s.lastSection o (changeCase o component)).2
        (setValue o v what (c :: path)) = some r := hr
      unfold descend at hr
      split at hr
      next t ht =>
        obtain ⟨q, hq, rfl⟩ := Option.map_eq_some_iff.mp hr
        obtain ⟨honly, hut, hsame⟩ := lastSection_spec h hu (changeCase_cut_changeCase o hc) ht
        have hti := hlast.1.inside _ t honly.mem
        have hnul' : ∀ d ∈ c :: path, 0 ∉ d := fun d hd => hnul d (List.mem_cons_of_mem _ hd)
        have hkey : changeCase o q.tree.getName = changeCase o component :=
          ((keeps_setValue _ hti hnul' hq).key.2).trans honly.key
        have hd := hlast.1.here.distinct
        have hbelow : ∀ {p' e}, p' ≠ [] → (Entry o (changeCase o component :: p') e s ↔ Entry o p' e t) := by
          intro p' e hp'
          rw [← hsame, entry_only hd honly hp']
        rcases ih (by simp) hti hut hnul' hq with ⟨hwhat, heff⟩ | ⟨e', hdirty, hval, hold, heff⟩
        · refine .inl ⟨hwhat, fun p e => ?_⟩
          refine entry_lift hd honly hkey (fun p' heq hp' => ?_) fun _ => hsame p e
          rw [heq, heff, hbelow hp']
        · refine .inr ⟨e', hdirty, hval, fun hne => ?_, fun p e => ?_⟩
          · obtain ⟨e₀, he₀, hval₀⟩ := hold hne
            exact ⟨e₀, (hbelow (by simp)).mpr he₀, hval₀⟩
          · refine entry_lift hd honly hkey (fun p' heq hp' => ?_) fun hnot => ?_
            · rw [heq, heff, hbelow hp', List.map_cons (a := component)]
              simp only [List.cons.injEq, true_and, ne_eq]
            · have hne : p ≠ (component :: c :: path).map (changeCase o) := by
                rintro rfl
                exact hnot (under_singleton.mpr ⟨_, rfl, by simp⟩)
              rw [hsame]
              exact ⟨fun hin => .inr ⟨hne, hin⟩, fun hor => hor.elim (fun heq => absurd heq.1 hne) And.right⟩
      next => cases hr

/-! ### Deleting -/

lemma entry_delValue (path : List Text) {r : Outcome} (hpath : path ≠ []) (h : Everywhere (Indexed o) s)
    (hu : Everywhere (Unique o) s) (hr : delValue o path s = some r) :
    Entry o p e r.tree ↔ p ≠ path.map (changeCase o) ∧ Entry o p e s := by
  induction path generalizing s r p with
  | nil => exact absurd rfl hpath
  | cons component path ih =>
    cases path with
    | nil =>
      cases hr
      exact entry_delMyValue h.here
    | cons c path =>
      rw [delValue] at hr
      · split at hr
        next hnone =>
          cases hr
          refine ⟨fun hin => ⟨?_, hin⟩, And.right⟩
          rintro rfl
          obtain ⟨⟨i, x⟩, hx, hof⟩ := hin
          cases x with
          | value e' =>
            have hlen := congrArg List.length (entryOf_value.mp hof).1
            simp at hlen
          | «section» t =>
            obtain ⟨p', heq, -⟩ := entryOf_section.mp hof
            exact no_section h.here hnone hx (List.head_eq_of_cons_eq heq).symm
        next id hid =>
          unfold descend at hr
          split at hr
          next t ht =>
            obtain ⟨q, hq, rfl⟩ := Option.map_eq_some_iff.mp hr
            have honly := only_of_range h.here hu.here (List.mem_of_getLast? hid) ht
            have hti := h.inside _ t honly.mem
            have hkey : changeCase o q.tree.getName = changeCase o component :=
              ((keeps_delValue _ hti hq).key.2).trans honly.key
            refine entry_lift h.here.distinct honly hkey (fun p' heq hp' => ?_) fun hnot => ?_
            · rw [heq, ih (by simp) hti (hu.inside _ t honly.mem) hq, entry_only h.here.distinct honly hp',
                List.map_cons (a := component)]
              simp only [ne_eq, List.cons.injEq, true_and]
            · refine ⟨fun hin => ⟨?_, hin⟩, And.right⟩
              rintro rfl
              exact hnot (under_singleton.mpr ⟨_, rfl, by simp⟩)
          next => cases hr
      · simp

lemma under_cons {c : Text} {q : List Text} : Under (c :: q) p ↔ ∃ p', p = c :: p' ∧ Under q p' := by
  constructor
  · rintro ⟨⟨p', rfl⟩, hlt⟩
    refine ⟨q ++ p', rfl, ⟨p', rfl⟩, ?_⟩
    simp only [List.cons_append, List.length_cons] at hlt
    omega
  · rintro ⟨p', rfl, ⟨p'', rfl⟩, hlt⟩
    refine ⟨⟨p'', rfl⟩, ?_⟩
    simp only [List.length_cons]
    omega

lemma entry_delSection (path : List Text) {r : Outcome} (hpath : path ≠ []) (h : Everywhere (Indexed o) s)
    (hu : Everywhere (Unique o) s) (hr : delSection o path s = some r) :
    Entry o p e r.tree ↔ ¬ Under (path.map (changeCase o)) p ∧ Entry o p e s := by
  induction path generalizing s r p with
  | nil => exact absurd rfl hpath
  | cons component path ih =>
    cases path with
    | nil =>
      cases hr
      rw [Entry, container_delSections, entryIn_filter, others_sections h.here]
      rfl
    | cons c path =>
      rw [delSection] at hr
      · split at hr
        next hnone =>
          cases hr
          refine ⟨fun hin => ⟨?_, hin⟩, And.right⟩
          intro hunder
          obtain ⟨p', rfl, hunder'⟩ := under_cons.mp hunder
          obtain ⟨⟨i, x⟩, hx, hof⟩ := hin
          cases x with
          | value e' =>
            have hp' := List.tail_eq_of_cons_eq (entryOf_value.mp hof).1
            subst hp'
            exact absurd hunder'.2 (by simp)
          | «section» t =>
            obtain ⟨p', heq, -⟩ := entryOf_section.mp hof
            exact no_section h.here hnone hx (List.head_eq_of_cons_eq heq).symm
        next id hid =>
          unfold descend at hr
          split at hr
          next t ht =>
            obtain ⟨q, hq, rfl⟩ := Option.map_eq_some_iff.mp hr
            have honly := only_of_range h.here hu.here (List.mem_of_getLast? hid) ht
            have hti := h.inside _ t honly.mem
            have hkey : changeCase o q.tree.getName = changeCase o component :=
              ((keeps_delSection _ hti hq).key.2).trans honly.key
            refine entry_lift h.here.distinct honly hkey (fun p' heq hp' => ?_) fun hnot => ?_
            · rw [heq, ih (by simp) hti (hu.inside _ t honly.mem) hq, entry_only h.here.distinct honly hp',
                List.map_cons (a := component), under_cons]
              simp only [List.cons.injEq, true_and, exists_eq_left']
            · refine ⟨fun hin => ⟨?_, hin⟩, And.right⟩
              intro hunder
              obtain ⟨p', rfl, hunder'⟩ := under_cons.mp hunder
              refine hnot (under_singleton.mpr ⟨p', rfl, ?_⟩)
              rintro rfl
              exact absurd hunder'.2 (by simp)
          next => cases hr
      · simp

/-! ### Properties of sections -/

lemma range_sections (h : Indexed o s) (hu : Unique o s) :
    Slots.equalRange k s.isections = [] ∨ ∃ id, Slots.equalRange k s.isections = [id] := by
  have hnodup := nodup_equalRange h.sections h.distinct k
  have hone : ∀ i ∈ Slots.equalRange k s.isections, ∀ j ∈ Slots.equalRange k s.isections, i = j := by
    intro i hi j hj
    obtain ⟨x, hx, hxk⟩ := h.sections.mem (Slots.mem_equalRange.mp hi)
    obtain ⟨y, hy, hyk⟩ := h.sections.mem (Slots.mem_equalRange.mp hj)
    cases x with
    | value e => cases hxk
    | «section» t =>
      cases y with
      | value e => cases hyk
      | «section» u => exact hu.sections i j t u hx hy (Option.some.inj (hxk.trans hyk.symm))
  generalize Slots.equalRange k s.isections = ids at hnodup hone
  cases ids with
  | nil => exact .inl rfl
  | cons i ids =>
    cases ids with
    | nil => exact .inr ⟨i, rfl⟩
    | cons j ids =>
      have hij := hone i List.mem_cons_self j (List.mem_cons_of_mem _ List.mem_cons_self)
      subst hij
      exact absurd List.mem_cons_self (List.nodup_cons.mp hnodup).1

lemma container_setProp {what : SectionProp} {t : IniSection} {prop : YCPValue}
    (h : setProp what s prop = some t) : t.container = s.container ∧ t.name = s.name := by
  unfold setProp at h
  split at h <;> cases h <;> exact ⟨rfl, rfl⟩

/-- A section whose entries stay may be changed. -/
lemma entry_replaceSame {t t' : IniSection} (h : Distinct s) (ht : (id, Element.section t) ∈ s.container)
    (hcontainer : t'.container = t.container) (hname : t'.name = t.name) :
    Entry o p e (s.replace id (.section t')) ↔ Entry o p e s := by
  have hof : EntryOf o p e (.section t') ↔ EntryOf o p e (.section t) := by
    cases p with
    | nil => simp
    | cons c p => rw [EntryOf, EntryOf, hcontainer, IniBase.getName, IniBase.getName, hname]
  rw [Entry, replace, entryIn_replace ht, hof, Entry, entryIn_iff_others h ht]

lemma entry_setSectionProp {v : YCPValue} {what : SectionProp} (path : List Text) {r : Outcome}
    (h : Everywhere (Indexed o) s) (hu : Everywhere (Unique o) s) (hrepeat : o.repeat_names = false)
    (hnul : ∀ c ∈ path, 0 ∉ c) (hr : setSectionProp o v what path s = some r) :
    Entry o p e r.tree ↔ Entry o p e s := by
  induction path generalizing s r p with
  | nil =>
    cases hr
    exact Iff.rfl
  | cons component path ih =>
    have hk := changeCase_cut_changeCase o (hnul component List.mem_cons_self)
    cases path with
    | nil =>
      have hprops : propsOf o v = some [v] := by
        unfold propsOf
        rw [if_neg (by simp [hrepeat])]
      rw [setSectionProp, hprops] at hr
      dsimp only at hr
      have hpush : Entry o p e (s.pushSection o (changeCase o component) (.named (changeCase o component))) ↔
          Entry o p e s := entry_pushSection.trans (or_iff_left not_entryOf_named)
      rcases range_sections (k := changeCase o component) h.here hu.here with hids | ⟨id, hids⟩
      · rw [hids, setSectionLoop] at hr
        split at hr
        · cases hr
        · split at hr
          next =>
            cases hr
            exact hpush
          next t ht =>
            cases hr
            have hset := container_setProp ht
            let s' := s.pushSection o (changeCase o component) (.named (changeCase o component))
            have hd : Distinct s' := Slots.nodup_push h.here.distinct _
            have hmem : (Slots.fresh s.container, Element.section (copySection o (IniSection.named _))) ∈ s'.container :=
              Slots.mem_push.mpr (.inr rfl)
            refine (entry_replaceSame hd hmem hset.1 ?_).trans hpush
            rw [hset.2, name_copySection]
      · rw [hids, setSectionLoop] at hr
        split at hr
        · cases hr
        · split at hr
          next t ht =>
            split at hr
            next =>
              cases hr
              exact Iff.rfl
            next t' ht' =>
              cases hr
              have hset := container_setProp ht'
              exact entry_replaceSame h.here.distinct (Slots.mem_of_find ht) hset.1 hset.2
          next => cases hr
    | cons c path =>
      have hlast := keeps_lastSection h hk
      have hr : (s.lastSection o (changeCase o component)).1.descend (s.lastSection o (changeCase o component)).2
        (setSectionProp o v what (c :: path)) = some r := hr
      unfold descend at hr
      split at hr
      next t ht =>
        obtain ⟨q, hq, rfl⟩ := Option.map_eq_some_iff.mp hr
        obtain ⟨honly, hut, hsame⟩ := lastSection_spec h hu hk ht
        have hti := hlast.1.inside _ t honly.mem
        have hnul' : ∀ d ∈ c :: path, 0 ∉ d := fun d hd => hnul d (List.mem_cons_of_mem _ hd)
        have hkey : changeCase o q.tree.getName = changeCase o component :=
          ((keeps_setSectionProp _ hti hnul' hq).key.2).trans honly.key
        have hd := hlast.1.here.distinct
        refine entry_lift hd honly hkey (fun p' heq hp' => ?_) fun _ => hsame p e
        rw [heq, ih hti hut hnul' hq, ← hsame, entry_only hd honly hp']
      next => cases hr

/-! ### Whole sections -/

lemma dirty_setAllItems {l : List YCPValue} {q : List (Nat × Element) × List (Text × Int32) × Bool}
    (hq : setAllItems o [] [] l = some q) {p : List Text} {e : IniEntry} (he : EntryIn o p e q.1) :
    e.dirty = true := by
  have hbase : ∀ m, (IniEntry.new.setAllDoIt m).1.dirty = true := by
    intro m
    unfold IniEntry.setAllDoIt IniBase.setAllDoIt
    cases getMapString m (ascii "name") with
    | none => rfl
    | some name =>
      cases getMapInteger m (ascii "type") with
      | none => rfl
      | some type =>
        cases getMapString m (ascii "comment") with
        | none => rfl
        | some comment =>
          dsimp only
          split
          · rfl
          · split
            · rfl
            · split <;> rfl
  revert p e
  refine setAllItems_induct (C := fun c => ∀ {p e}, EntryIn o p e c → e.dirty = true) ?_ ?_ ?_ l ?_ hq
  · rintro p e ⟨x, hx, -⟩
    exact absurd hx List.not_mem_nil
  · intro c m hc p e he
    rcases entryIn_push.mp he with he | he
    · exact hc he
    · rw [← (entryOf_value.mp he).2]
      exact hbase m
  · intro c s hc hs p e he
    rcases entryIn_push.mp he with he | he
    · exact hc he
    · have hcopy : copyElement o (.section s) = .section (copySection o s) := rfl
      rw [← hcopy, entryOf_copyElement] at he
      obtain ⟨p', -, hin⟩ := entryOf_section.mp he
      exact hs hin
  · rintro p e ⟨x, hx, -⟩
    exact absurd hx List.not_mem_nil

/-- Only what is below the section at the end of the path changes, and what is there then is dirty. -/
lemma entry_setAll {v : YCPValue} (path : List Text) {r : Outcome} (h : Everywhere (Indexed o) s)
    (hu : Everywhere (Unique o) s) (hkey : (allSection o path s).isSome → KeepsKey o path v)
    (hr : setAll o v path s = some r) :
    (¬ Under (path.map (changeCase o)) p → (Entry o p e r.tree ↔ Entry o p e s)) ∧
      (Under (path.map (changeCase o)) p → r.ok = true → Entry o p e r.tree → e.dirty = true) := by
  induction path generalizing s r p with
  | nil =>
    obtain ⟨m, rfl, hr⟩ := setAll_nil hr
    refine ⟨fun hnot => ?_, fun _ hok he => ?_⟩
    · have hp : p = [] := by
        by_contra hne
        exact hnot ⟨List.nil_prefix, List.length_pos_of_ne_nil hne⟩
      subst hp
      exact ⟨fun hin => absurd hin not_entry_nil, fun hin => absurd hin not_entry_nil⟩
    · obtain ⟨file, rfl | ⟨l, c, d, ok, hl, hall, rfl⟩⟩ := setAllDoIt_cases hr
      · cases hok
      · exact dirty_setAllItems hall he
  | cons component path ih =>
    rw [setAll] at hr
    split at hr
    next hnone =>
      cases hr
      exact ⟨fun _ => Iff.rfl, fun _ hok => by cases hok⟩
    next id hid =>
      unfold descend at hr
      split at hr
      next t ht =>
        obtain ⟨q, hq, rfl⟩ := Option.map_eq_some_iff.mp hr
        have honly := only_of_range h.here hu.here (List.mem_of_mem_head? hid) ht
        have hti := h.inside _ t honly.mem
        obtain ⟨hname, htail⟩ := key_setAll h.here hid ht hq hkey
        have hkey' : changeCase o q.tree.getName = changeCase o component := hname.trans honly.key
        have hspec := fun {p} => ih (p := p) hti (hu.inside _ t honly.mem) htail hq
        have hd := h.here.distinct
        have hunder : ∀ p', Under ((component :: path).map (changeCase o)) (changeCase o component :: p') ↔
            Under (path.map (changeCase o)) p' := by
          intro p'
          rw [List.map_cons, under_cons]
          simp only [List.cons.injEq, true_and, exists_eq_left']
        refine ⟨fun hnot => ?_, fun hp hok he => ?_⟩
        · refine entry_lift hd honly hkey' (fun p' heq hp' => ?_) fun _ => Iff.rfl
          rw [heq, hunder] at hnot
          rw [hspec.1 hnot, heq, entry_only hd honly hp']
        · obtain ⟨p', rfl, hp'⟩ := under_cons.mp hp
          have hne : p' ≠ [] := by
            rintro rfl
            exact absurd hp'.2 (by simp)
          rw [entry_replaceOnly hd honly hkey'] at he
          rcases he with ⟨p'', heq, hin⟩ | ⟨hnot, -⟩
          · cases heq
            exact hspec.2 hp' hok hin
          · exact absurd (under_singleton.mpr ⟨p', rfl, hne⟩) hnot
      next => cases hr

end SectionOf

/-! ### Operations -/

/-- What an operation does to the entries of a key. -/
inductive Effect where
  | writes (text : Text)
  | deletes
  | rewrites
  | comments
  | keeps

instance (q p : List Text) : Decidable (Under q p) := inferInstanceAs (Decidable (_ ∧ _))

def effect (o : Options) (p : List Text) : Op → Effect
  | .write (c :: path) v _ =>
    if o.flat then
      if p ≠ [changeCase o c] then .keeps
      else if path.head? = some (ascii "comment") then .comments
      else .writes (valueText o v)
    else if c = ascii "all" then if Under (path.map (changeCase o)) p then .rewrites else .keeps
    else if path = [] ∨ p ≠ path.map (changeCase o) then .keeps
    else
      match SectionOf.valueWhat c with
      | some .value => .writes (valueText o v)
      | some _ => .comments
      | none => .keeps
  | .delete (c :: path) =>
    if o.flat then if p = [changeCase o c] then .deletes else .keeps
    else if path = [] then .keeps
    else if c ∈ [ascii "v", ascii "value"] then if p = path.map (changeCase o) then .deletes else .keeps
    else if c ∈ [ascii "s", ascii "section"] then if Under (path.map (changeCase o)) p then .deletes else .keeps
    else .keeps
  | _ => .keeps

/-- An operation of the agent. -/
def perform (o : Options) (s : IniSection) : Op → Option Outcome
  | .read => some ⟨s, [], true⟩
  | .write p v rewrite => s.write o rewrite p v
  | .delete p => s.delete o p
  | _ => none

/-- The effect on the entries of a key, before and after. -/
def Follows (o : Options) (p : List Text) (s : IniSection) (r : Outcome) : Effect → Prop
  | .writes text => ∃ e', e'.dirty = true ∧ e'.val = text ∧ ∀ e, Entry o p e r.tree ↔ e = e'
  | .deletes => ∀ e, ¬ Entry o p e r.tree
  | .rewrites => r.ok = true → ∀ e, Entry o p e r.tree → e.dirty = true
  | .comments => (∀ e, Entry o p e r.tree ↔ Entry o p e s) ∨
      ∃ e', e'.dirty = true ∧ (∃ e₀, Entry o p e₀ s ∧ e'.val = e₀.val) ∧ ∀ e, Entry o p e r.tree ↔ e = e'
  | .keeps => ∀ e, Entry o p e r.tree ↔ Entry o p e s

section

variable {o : Options} {s : IniSection} {r : Outcome} (p : List Text)

lemma follows_of_valueEffect {what : ValueProp} {text : Text} {q : List Text}
    (h : SectionOf.ValueEffect o what text q s r.tree) :
    Follows o p s r (if p ≠ q then .keeps else if what = .value then .writes text else .comments) := by
  by_cases hp : p = q
  · subst hp
    rw [if_neg (by simp)]
    by_cases hwhat : what = .value
    · rw [if_pos hwhat]
      rcases h with ⟨hne, -⟩ | ⟨e', hdirty, hval, -, hall⟩
      · exact absurd hwhat hne
      · exact ⟨e', hdirty, hval hwhat, fun e => by rw [hall]; simp⟩
    · rw [if_neg hwhat]
      rcases h with ⟨-, hsame⟩ | ⟨e', hdirty, -, hold, hall⟩
      · exact .inl (hsame p)
      · exact .inr ⟨e', hdirty, hold hwhat, fun e => by rw [hall]; simp⟩
  · rw [if_pos hp]
    rcases h with ⟨-, hsame⟩ | ⟨e', -, -, -, hall⟩
    · exact hsame p
    · exact fun e => by rw [hall]; simp [hp]

lemma follows_write {q : List Text} {v : YCPValue} {rewrite : Bool} (h : Everywhere (Indexed o) s)
    (hu : Everywhere (Unique o) s) (hrepeat : o.repeat_names = false) (hnames : Names o s (.write q v rewrite))
    (hr : s.write o rewrite q v = some r) : Follows o p s r (effect o p (.write q v rewrite)) := by
  obtain ⟨hnul, hall⟩ := hnames
  have hsame : ∀ e, Entry o p e s ↔ Entry o p e s := fun _ => Iff.rfl
  rcases SectionOf.write_cases hr with ⟨rfl, hq⟩ | ⟨hflat, c, path, rfl, hmy⟩ | ⟨hflat, path, rfl, hset⟩ |
    ⟨hflat, c, path, rfl, hc, hpath, hset⟩
  · have heff : effect o p (.write q v rewrite) = .keeps := by
      rcases hq with rfl | ⟨hflat, c, path, rfl, hc, rfl | hnone⟩
      · rfl
      · rw [effect, if_neg (by simp [hflat]), if_neg hc, if_pos (.inl rfl)]
      · rw [effect, if_neg (by simp [hflat]), if_neg hc, hnone]
        split <;> rfl
    rw [heff]
    exact hsame
  · have hfollow := follows_of_valueEffect p
      (SectionOf.effect_setMyValue h.here hrepeat (hnul c List.mem_cons_self) hmy)
    rw [effect, if_pos hflat]
    by_cases hcomment : path.head? = some (ascii "comment")
    · rw [if_pos hcomment] at hfollow ⊢
      exact hfollow
    · rw [if_neg hcomment] at hfollow ⊢
      exact hfollow
  · have hspec := fun e => SectionOf.entry_setAll (p := p) (e := e) path h hu (hall hflat rfl) hset
    rw [effect, if_neg (by simp [hflat]), if_pos rfl]
    by_cases hunder : Under (path.map (changeCase o)) p
    · rw [if_pos hunder]
      exact fun hok e => (hspec e).2 hunder hok
    · rw [if_neg hunder]
      exact fun e => (hspec e).1 hunder
  · have hnul' : ∀ d ∈ path, 0 ∉ d := fun d hd => hnul d (List.mem_cons_of_mem _ hd)
    rw [effect, if_neg (by simp [hflat]), if_neg hc]
    rcases hset with ⟨what, hwhat, hset⟩ | ⟨hnone, what, hset⟩
    · have hfollow := follows_of_valueEffect p
        (SectionOf.effect_setValue path hpath h hu hrepeat hnul' hset)
      by_cases hp : p = path.map (changeCase o)
      · rw [if_neg (by simp [hpath, hp]), hwhat]
        rw [if_neg (by simp [hp])] at hfollow
        cases what <;> exact hfollow
      · rw [if_pos (.inr hp)]
        rw [if_pos hp] at hfollow
        exact hfollow
    · have hkeep : Follows o p s r .keeps :=
        fun e => SectionOf.entry_setSectionProp path h hu hrepeat hnul' hset
      rw [hnone]
      split <;> exact hkeep

lemma follows_delete {q : List Text} (h : Everywhere (Indexed o) s) (hu : Everywhere (Unique o) s)
    (hr : s.delete o q = some r) : Follows o p s r (effect o p (.delete q)) := by
  have hsame : ∀ e, Entry o p e s ↔ Entry o p e s := fun _ => Iff.rfl
  rcases SectionOf.delete_cases hr with ⟨rfl, hq⟩ | ⟨hflat, c, path, rfl, rfl⟩ | ⟨hflat, c, path, rfl, hpath, hdel⟩
  · have heff : effect o p (.delete q) = .keeps := by
      rcases hq with rfl | ⟨hflat, c, path, rfl, rfl | ⟨hv, hs⟩⟩
      · rfl
      · rw [effect, if_neg (by simp [hflat]), if_pos rfl]
      · rw [effect, if_neg (by simp [hflat]), if_neg hv, if_neg hs]
        split <;> rfl
    rw [heff]
    exact hsame
  · have hspec : ∀ e, Entry o p e (s.delMyValue (changeCase o c)) ↔ _ := fun e => SectionOf.entry_delMyValue h.here
    rw [effect, if_pos hflat]
    by_cases hp : p = [changeCase o c]
    · rw [if_pos hp]
      exact fun e he => ((hspec e).mp he).1 hp
    · rw [if_neg hp]
      exact fun e => (hspec e).trans (and_iff_right hp)
  · rw [effect, if_neg (by simp [hflat]), if_neg hpath]
    rcases hdel with ⟨hc, hdel⟩ | ⟨hv, hc, hdel⟩
    · have hspec := fun e => SectionOf.entry_delValue (p := p) (e := e) path hpath h hu hdel
      rw [if_pos hc]
      by_cases hp : p = path.map (changeCase o)
      · rw [if_pos hp]
        exact fun e he => ((hspec e).mp he).1 hp
      · rw [if_neg hp]
        exact fun e => (hspec e).trans (and_iff_right hp)
    · have hspec := fun e => SectionOf.entry_delSection (p := p) (e := e) path hpath h hu hdel
      rw [if_neg hv, if_pos hc]
      by_cases hunder : Under (path.map (changeCase o)) p
      · rw [if_pos hunder]
        exact fun e he => ((hspec e).mp he).1 hunder
      · rw [if_neg hunder]
        exact fun e => (hspec e).trans (and_iff_right hunder)

/-- Every operation does to every key what its path says. -/
theorem follows_perform {op : Op} (h : Everywhere (Indexed o) s) (hu : Everywhere (Unique o) s)
    (hrepeat : o.repeat_names = false) (hnames : Names o s op) (hr : perform o s op = some r) :
    Follows o p s r (effect o p op) := by
  cases op with
  | read =>
    cases hr
    exact fun _ => Iff.rfl
  | write q v rewrite => exact follows_write p h hu hrepeat hnames hr
  | delete q => exact follows_delete p h hu hr
  | _ => cases hr

end

end YastCore.Ini
