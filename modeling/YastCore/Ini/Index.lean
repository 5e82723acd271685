import Mathlib.Tactic.Common
import YastCore.Ini.Tree

/-!
# The indices of an ini tree

The operations of the parser and of the generic interface insert, rename and erase elements and change the
two multimaps by hand. The only one that leaves a multimap behind is the writing of a whole section under
a name other than the one by which its parent finds it.
-/

namespace YastCore.Ini

open Lines

/-! ### Case -/

lemma toupper_toupper (c : UInt8) : toupper (toupper c) = toupper c := by
  unfold toupper
  grind

lemma tolower_tolower (c : UInt8) : tolower (tolower c) = tolower c := by
  unfold tolower
  grind

lemma tolower_toupper (c : UInt8) : tolower (toupper c) = tolower c := by
  unfold tolower toupper
  grind

lemma toupper_eq_zero {c : UInt8} (h : toupper c = 0) : c = 0 := by
  unfold toupper at h
  grind

lemma tolower_eq_zero {c : UInt8} (h : tolower c = 0) : c = 0 := by
  unfold tolower at h
  grind

lemma changeCase_changeCase (o : Options) (str : Text) : changeCase o (changeCase o str) = changeCase o str := by
  by_cases hcase : o.ignore_case
  · by_cases hupper : o.prefer_uppercase
    · have h : toupper ∘ toupper = toupper := funext toupper_toupper
      simp [changeCase, hcase, hupper, h]
    · cases str with
      | nil => simp [changeCase, hcase, hupper]
      | cons c str =>
        have h : tolower ∘ tolower = tolower := funext tolower_tolower
        by_cases hfirst : o.first_upper
        · simp [changeCase, hcase, hupper, hfirst, h, tolower_toupper, tolower_tolower]
        · simp [changeCase, hcase, hupper, hfirst, h, tolower_tolower]
  · simp [changeCase, hcase]

lemma zero_notMem_changeCase (o : Options) {str : Text} (h : 0 ∉ str) : 0 ∉ changeCase o str := by
  have hup : ∀ {l : Text}, 0 ∉ l → 0 ∉ l.map toupper := by
    intro l hl hmem
    obtain ⟨c, hc, h0⟩ := List.mem_map.mp hmem
    exact hl (toupper_eq_zero h0 ▸ hc)
  have hlow : 0 ∉ str.map tolower := by
    intro hmem
    obtain ⟨c, hc, h0⟩ := List.mem_map.mp hmem
    exact h (tolower_eq_zero h0 ▸ hc)
  unfold changeCase
  split
  · exact h
  · split
    · exact hup h
    · cases hstr : str.map tolower with
      | nil => exact List.not_mem_nil
      | cons c tmp =>
        rw [hstr] at hlow
        dsimp only
        split
        · intro hmem
          rcases List.mem_cons.mp hmem with h0 | hmem
          · exact hlow (List.mem_cons.mpr (.inl (toupper_eq_zero h0.symm).symm))
          · exact hlow (List.mem_cons_of_mem _ hmem)
        · exact hlow

/-- The name that an element gets is a key of its own. -/
lemma changeCase_cut_changeCase (o : Options) {str : Text} (h : 0 ∉ str) :
    changeCase o (cut (changeCase o str)) = changeCase o str := by
  rw [cut_eq_self.mpr (zero_notMem_changeCase o h), changeCase_changeCase]

/-! ### The invariant -/

/-- What holds of a section and of all sections below it. -/
inductive Everywhere (P : IniSection → Prop) : IniSection → Prop where
  | intro {s : IniSection} (here : P s)
    (below : ∀ id t, (id, Element.section t) ∈ s.container → Everywhere P t) : Everywhere P s

def Below (P : IniSection → Prop) (container : List (Nat × Element)) : Prop :=
  ∀ id t, (id, Element.section t) ∈ container → Everywhere P t

def Distinct (s : IniSection) : Prop := (s.container.map Prod.fst).Nodup

/-- The multimaps list the values and the sections of the container, each once and under its name. -/
structure Indexed (o : Options) (s : IniSection) : Prop where
  distinct : Distinct s
  values : Slots.Indexes (valueKey o) s.ivalues s.container
  sections : Slots.Indexes (sectionKey o) s.isections s.container

section Everywhere

variable {P Q : IniSection → Prop} {s : IniSection} {container : List (Nat × Element)} {id : Nat}

lemma Everywhere.here (h : Everywhere P s) : P s := by
  cases h with
  | intro here below => exact here

lemma Everywhere.inside (h : Everywhere P s) : Below P s.container := by
  cases h with
  | intro here below => exact below

lemma Everywhere.mono (h : Everywhere P s) (hPQ : ∀ s, P s → Q s) : Everywhere Q s := by
  induction h with
  | intro here below ih => exact .intro (hPQ _ here) ih

lemma Below.push_value (h : Below P container) (e : IniEntry) : Below P (Slots.push (.value e) container) := by
  intro id t hmem
  rcases Slots.mem_push.mp hmem with hmem | heq
  · exact h id t hmem
  · cases heq

lemma Below.push_section (h : Below P container) {t : IniSection} (ht : Everywhere P t) :
    Below P (Slots.push (.section t) container) := by
  intro id u hmem
  rcases Slots.mem_push.mp hmem with hmem | heq
  · exact h id u hmem
  · cases heq
    exact ht

lemma Below.erase (h : Below P container) (id : Nat) : Below P (Slots.erase id container) :=
  fun i t hmem => h i t (Slots.mem_erase.mp hmem).1

lemma Below.replace_value (h : Below P container) (e : IniEntry) :
    Below P (Slots.replace id (.value e) container) := by
  intro i t hmem
  rcases Slots.mem_replace hmem with hmem | heq
  · exact h i t hmem.1
  · cases heq

lemma Below.replace_section (h : Below P container) {t : IniSection} (ht : Everywhere P t) :
    Below P (Slots.replace id (.section t) container) := by
  intro i u hmem
  rcases Slots.mem_replace hmem with hmem | heq
  · exact h i u hmem.1
  · cases heq
    exact ht

end Everywhere

/-! ### Copies -/

lemma copyContainer_eq (o : Options) (container : List (Nat × Element)) :
    copyContainer o container = container.map fun x => (x.1, copyElement o x.2) := by
  induction container with
  | nil => rfl
  | cons x container ih => rw [copyContainer, ih, List.map_cons]

lemma copySection_eq (o : Options) (s : IniSection) :
    copySection o s = SectionOf.reindex o { s with container := copyContainer o s.container } := by
  cases s
  rfl

@[simp] lemma name_copySection (o : Options) (s : IniSection) : (copySection o s).name = s.name := by
  rw [copySection_eq]
  rfl

lemma indexed_reindex {o : Options} {s : IniSection} (h : Distinct s) : Indexed o (s.reindex o) :=
  ⟨h, List.Perm.refl _, List.Perm.refl _⟩

/-- A copy is indexed, whatever the indices of the original were. -/
lemma everywhere_copySection (o : Options) {s : IniSection} (h : Everywhere Distinct s) :
    Everywhere (Indexed o) (copySection o s) := by
  induction h with
  | @intro s here below ih =>
    rw [copySection_eq]
    refine .intro (indexed_reindex ?_) ?_
    · rw [Distinct, copyContainer_eq, List.map_map]
      exact here
    · intro id t hmem
      have hmem : (id, Element.section t) ∈ copyContainer o s.container := hmem
      rw [copyContainer_eq] at hmem
      obtain ⟨⟨i, x⟩, hx, heq⟩ := List.mem_map.mp hmem
      cases x with
      | value e => cases heq
      | «section» u =>
        cases heq
        exact ih _ u hx

/-! ### The elementary changes -/

namespace SectionOf

variable {o : Options} {s : IniSection} {k : Text} {id : Nat}

lemma everywhere_congr {P : IniSection → Prop} {s' : IniSection} (h : Everywhere P s) (hP : P s')
    (hc : s'.container = s.container) : Everywhere P s' :=
  .intro hP fun id t hmem => h.inside id t (hc ▸ hmem)

lemma everywhere_pushValue {e : IniEntry} (h : Everywhere (Indexed o) s) (hk : changeCase o e.getName = k) :
    Everywhere (Indexed o) (s.pushValue k e) := by
  have hkey : valueKey o (.value e) = some k := congrArg some hk
  refine .intro ⟨?_, ?_, ?_⟩ (h.inside.push_value e)
  · exact Slots.nodup_push h.here.distinct _
  · exact h.here.values.push_some hkey
  · exact h.here.sections.push_none rfl

lemma everywhere_pushSection {t : IniSection} (h : Everywhere (Indexed o) s) (ht : Everywhere Distinct t)
    (hk : changeCase o t.getName = k) : Everywhere (Indexed o) (s.pushSection o k t) := by
  have hkey : sectionKey o (.section (copySection o t)) = some k := by
    rw [sectionKey, IniBase.getName, name_copySection]
    exact congrArg some hk
  refine .intro ⟨?_, ?_, ?_⟩ (h.inside.push_section (everywhere_copySection o ht))
  · exact Slots.nodup_push h.here.distinct _
  · exact h.here.values.push_none rfl
  · exact h.here.sections.push_some hkey

/-- An iterator of the values. -/
def ValueAt (s : IniSection) (id : Nat) : Prop := ∀ x, (id, x) ∈ s.container → ∃ e, x = .value e

/-- An iterator of the sections. -/
def SectionAt (s : IniSection) (id : Nat) : Prop := ∀ x, (id, x) ∈ s.container → ∃ t, x = .section t

lemma valueAt_of_mem (h : Indexed o s) (hid : id ∈ Slots.equalRange k s.ivalues) : s.ValueAt id := by
  obtain ⟨y, hy, hkey⟩ := h.values.mem (Slots.mem_equalRange.mp hid)
  intro x hx
  have hxy := Slots.mem_unique h.distinct hx hy
  subst hxy
  cases x with
  | value e => exact ⟨e, rfl⟩
  | «section» t => cases hkey

lemma sectionAt_of_mem (h : Indexed o s) (hid : id ∈ Slots.equalRange k s.isections) : s.SectionAt id := by
  obtain ⟨y, hy, hkey⟩ := h.sections.mem (Slots.mem_equalRange.mp hid)
  intro x hx
  have hxy := Slots.mem_unique h.distinct hx hy
  subst hxy
  cases x with
  | value e => cases hkey
  | «section» t => exact ⟨t, rfl⟩

lemma everywhere_eraseValue (h : Everywhere (Indexed o) s) (hid : s.ValueAt id) :
    Everywhere (Indexed o) (s.eraseValue id) := by
  refine .intro ⟨?_, ?_, ?_⟩ (h.inside.erase id)
  · exact Slots.nodup_erase h.here.distinct id
  · exact h.here.values.erase id
  · refine h.here.sections.erase_none fun x hx => ?_
    obtain ⟨e, rfl⟩ := hid x hx
    rfl

lemma everywhere_eraseSection (h : Everywhere (Indexed o) s) (hid : s.SectionAt id) :
    Everywhere (Indexed o) (s.eraseSection id) := by
  refine .intro ⟨?_, ?_, ?_⟩ (h.inside.erase id)
  · exact Slots.nodup_erase h.here.distinct id
  · refine h.here.values.erase_none fun x hx => ?_
    obtain ⟨t, rfl⟩ := hid x hx
    rfl
  · exact h.here.sections.erase id

lemma everywhere_replaceValue {e e' : IniEntry} (h : Everywhere (Indexed o) s)
    (he : Assoc.find id s.container = some (.value e)) (hname : e'.name = e.name) :
    Everywhere (Indexed o) (s.replace id (.value e')) := by
  have hat : ∀ y, (id, y) ∈ s.container → y = .value e :=
    fun y hy => Slots.mem_unique h.here.distinct hy (Slots.mem_of_find he)
  refine .intro ⟨?_, ?_, ?_⟩ (h.inside.replace_value e')
  · rw [Distinct, replace, Slots.map_fst_replace]
    exact h.here.distinct
  · refine h.here.values.replace fun y hy => ?_
    rw [hat y hy, valueKey, valueKey, IniBase.getName, IniBase.getName, hname]
  · refine h.here.sections.replace fun y hy => ?_
    rw [hat y hy]
    rfl

lemma everywhere_replaceSection {t t' : IniSection} (h : Everywhere (Indexed o) s)
    (ht : Assoc.find id s.container = some (.section t)) (ht' : Everywhere (Indexed o) t')
    (hname : changeCase o t'.getName = changeCase o t.getName) :
    Everywhere (Indexed o) (s.replace id (.section t')) := by
  have hat : ∀ y, (id, y) ∈ s.container → y = .section t :=
    fun y hy => Slots.mem_unique h.here.distinct hy (Slots.mem_of_find ht)
  refine .intro ⟨?_, ?_, ?_⟩ (h.inside.replace_section ht')
  · rw [Distinct, replace, Slots.map_fst_replace]
    exact h.here.distinct
  · refine h.here.values.replace fun y hy => ?_
    rw [hat y hy]
    rfl
  · refine h.here.sections.replace fun y hy => ?_
    rw [hat y hy, sectionKey, sectionKey, hname]

/-! ### Parsing -/

lemma everywhere_new : Everywhere (Indexed o) IniSection.new :=
  .intro ⟨List.nodup_nil, List.Perm.refl _, List.Perm.refl _⟩ fun _ _ hmem => absurd hmem List.not_mem_nil

lemma everywhere_initValue {key val comment : Text} {rb : Int32} {s' : IniSection}
    (h : Everywhere (Indexed o) s) (hkey : 0 ∉ key) (hs' : s.initValue o key val comment rb = some s') :
    Everywhere (Indexed o) s' := by
  have hk := changeCase_cut_changeCase o hkey
  unfold initValue at hs'
  dsimp only at hs'
  split at hs'
  · cases hs'
    exact everywhere_pushValue h hk
  next id hid =>
    have hid : id ∈ Slots.equalRange (changeCase o key) s.ivalues := by
      by_cases hr : o.repeat_names
      · rw [if_pos hr] at hid
        cases hid
      · rw [if_neg hr] at hid
        exact List.mem_of_mem_head? hid
    split at hs'
    next e he =>
      cases hs'
      refine everywhere_pushValue (everywhere_eraseValue h (valueAt_of_mem h.here hid)) ?_
      by_cases hd : e.dirty
      · rw [IniEntry.init, if_pos hd]
        obtain ⟨y, hy, hyk⟩ := h.here.values.mem (Slots.mem_equalRange.mp hid)
        rw [Slots.mem_unique h.here.distinct hy (Slots.mem_of_find he)] at hyk
        exact Option.some.inj hyk
      · rw [IniEntry.init, if_neg hd, IniBase.init, if_neg hd]
        exact hk
    next => cases hs'

lemma everywhere_initSection {name comment : Text} {rb wb : Int32} {s' : IniSection}
    (h : Everywhere (Indexed o) s) (hname : 0 ∉ name)
    (hs' : s.initSection o name comment rb wb = some s') : Everywhere (Indexed o) s' := by
  have hk := changeCase_cut_changeCase o hname
  have hdistinct : ∀ {t}, Everywhere (Indexed o) t → Everywhere Distinct t :=
    fun ht => ht.mono fun _ hi => hi.distinct
  unfold initSection at hs'
  dsimp only at hs'
  split at hs'
  · cases hs'
    refine everywhere_pushSection h ?_ hk
    exact everywhere_congr (hdistinct (everywhere_new : Everywhere (Indexed o) .new)) List.nodup_nil rfl
  next id hid =>
    have hid : id ∈ Slots.equalRange (changeCase o name) s.isections := by
      by_cases hr : o.repeat_names
      · rw [if_pos hr] at hid
        cases hid
      · rw [if_neg hr] at hid
        exact List.mem_of_mem_head? hid
    split at hs'
    next t ht =>
      cases hs'
      have hmem := Slots.mem_of_find ht
      have htd : Everywhere Distinct t := hdistinct (h.inside id t hmem)
      refine everywhere_pushSection (everywhere_eraseSection h (sectionAt_of_mem h.here hid)) ?_ ?_
      · split
        · exact htd
        · exact everywhere_congr htd htd.here rfl
      · split
        · obtain ⟨y, hy, hyk⟩ := h.here.sections.mem (Slots.mem_equalRange.mp hid)
          rw [Slots.mem_unique h.here.distinct hy hmem] at hyk
          exact Option.some.inj hyk
        · exact hk
    next => cases hs'

lemma name_initValue {key val comment : Text} {rb : Int32} {s' : IniSection}
    (hs' : s.initValue o key val comment rb = some s') : s'.name = s.name := by
  unfold initValue at hs'
  dsimp only at hs'
  split at hs'
  · cases hs'
    rfl
  · split at hs' <;> cases hs'
    rfl

lemma name_initSection {name comment : Text} {rb wb : Int32} {s' : IniSection}
    (hs' : s.initSection o name comment rb wb = some s') : s'.name = s.name := by
  unfold initSection at hs'
  dsimp only at hs'
  split at hs'
  · cases hs'
    rfl
  · split at hs' <;> cases hs'
    rfl

lemma name_setEndComment {c : Text} : (s.setEndComment c).name = s.name := by
  unfold setEndComment
  split <;> rfl

lemma everywhere_setEndComment {c : Text} (h : Everywhere (Indexed o) s) :
    Everywhere (Indexed o) (s.setEndComment c) := by
  have hi := h.here
  unfold setEndComment
  split
  · exact everywhere_congr h ⟨hi.distinct, hi.values, hi.sections⟩ rfl
  · exact everywhere_congr h ⟨hi.distinct, hi.values, hi.sections⟩ rfl

/-! ### Writing and deleting -/

/-- What an operation on a section keeps, apart from renaming it. -/
def Keeps (o : Options) (s s' : IniSection) : Prop := Everywhere (Indexed o) s' ∧ s'.name = s.name

lemma everywhere_withBase {b : IniBase} (h : Everywhere (Indexed o) s) :
    Everywhere (Indexed o) { s with toIniBase := b } :=
  everywhere_congr h ⟨h.here.distinct, h.here.values, h.here.sections⟩ rfl

lemma valueAt_eraseValue {i : Nat} (h : s.ValueAt i) : (s.eraseValue id).ValueAt i :=
  fun x hx => h x (Slots.mem_erase.mp hx).1

lemma sectionAt_eraseSection {i : Nat} (h : s.SectionAt i) : (s.eraseSection id).SectionAt i :=
  fun x hx => h x (Slots.mem_erase.mp hx).1

lemma valueAt_replaceValue {e : IniEntry} {i : Nat} (h : s.ValueAt i) : (s.replace id (.value e)).ValueAt i := by
  intro x hx
  rcases Slots.mem_replace hx with hx | heq
  · exact h x hx.1
  · cases heq
    exact ⟨e, rfl⟩

lemma sectionAt_replaceSection {t : IniSection} {i : Nat} (h : s.SectionAt i) :
    (s.replace id (.section t)).SectionAt i := by
  intro x hx
  rcases Slots.mem_replace hx with hx | heq
  · exact h x hx.1
  · cases heq
    exact ⟨t, rfl⟩

lemma keeps_delValues (ids : List Nat) (h : Everywhere (Indexed o) s) (hids : ∀ id ∈ ids, s.ValueAt id) :
    Keeps o s (ids.foldl delValue1 s) := by
  induction ids generalizing s with
  | nil => exact ⟨h, rfl⟩
  | cons id ids ih =>
    have herase : Everywhere (Indexed o) (s.delValue1 id) :=
      everywhere_withBase (everywhere_eraseValue h (hids id List.mem_cons_self))
    refine ih herase fun i hi => ?_
    exact valueAt_eraseValue (hids i (List.mem_cons_of_mem _ hi))

lemma keeps_delSections (ids : List Nat) (h : Everywhere (Indexed o) s) (hids : ∀ id ∈ ids, s.SectionAt id) :
    Keeps o s (ids.foldl delSection1 s) := by
  induction ids generalizing s with
  | nil => exact ⟨h, rfl⟩
  | cons id ids ih =>
    have herase : Everywhere (Indexed o) (s.delSection1 id) :=
      everywhere_withBase (everywhere_eraseSection h (hids id List.mem_cons_self))
    refine ih herase fun i hi => ?_
    exact sectionAt_eraseSection (hids i (List.mem_cons_of_mem _ hi))

lemma name_setProp {what : ValueProp} {e e' : IniEntry} {prop : YCPValue} (h : e.setProp o what prop = some e') :
    e'.name = e.name := by
  unfold IniEntry.setProp at h
  split at h <;> cases h <;> rfl

lemma keeps_setMyLoop {what : ValueProp} (hk : changeCase o (cut k) = k) (props : List YCPValue)
    (ids : List Nat) {r : Outcome} (h : Everywhere (Indexed o) s) (hids : ∀ id ∈ ids, s.ValueAt id)
    (hr : setMyLoop o what k props ids s = some r) : Keeps o s r.tree := by
  induction props generalizing ids s with
  | nil =>
    cases hr
    have hdel := keeps_delValues ids h hids
    exact ⟨everywhere_withBase hdel.1, hdel.2⟩
  | cons prop props ih =>
    cases ids with
    | nil =>
      rw [setMyLoop] at hr
      split at hr
      · cases hr
      · split at hr
        · cases hr
          exact ⟨h, rfl⟩
        · let e := { IniEntry.new with dirty := true, name := k, val := valueText o prop }
          have hpush : Everywhere (Indexed o) (s.pushValue k e) := everywhere_pushValue h hk
          have hkeep := ih [] hpush (by simp) hr
          exact ⟨hkeep.1, hkeep.2⟩
    | cons id ids =>
      rw [setMyLoop] at hr
      split at hr
      · cases hr
      · split at hr
        next e he =>
          split at hr
          next =>
            cases hr
            exact ⟨h, rfl⟩
          next e' he' =>
            have hrep := everywhere_replaceValue h he (name_setProp he')
            have hkeep := ih ids hrep
              (fun i hi => valueAt_replaceValue (hids i (List.mem_cons_of_mem _ hi))) hr
            exact ⟨hkeep.1, hkeep.2⟩
        next => cases hr

lemma keeps_setMyValue {component : Text} {v : YCPValue} {what : ValueProp} {r : Outcome}
    (h : Everywhere (Indexed o) s) (hc : 0 ∉ component) (hr : s.setMyValue o component v what = some r) :
    Keeps o s r.tree := by
  unfold setMyValue at hr
  dsimp only at hr
  split at hr
  · cases hr
    exact ⟨h, rfl⟩
  · exact keeps_setMyLoop (changeCase_cut_changeCase o hc) _ _ h (fun _ hid => valueAt_of_mem h.here hid) hr

/-- A change of a section below that does not change the key of the section. -/
lemma keeps_descend {f : IniSection → Option Outcome} {r : Outcome} (h : Everywhere (Indexed o) s)
    (hf : ∀ t r, Assoc.find id s.container = some (.section t) → Everywhere (Indexed o) t → f t = some r →
      Everywhere (Indexed o) r.tree ∧ changeCase o r.tree.getName = changeCase o t.getName)
    (hr : s.descend id f = some r) : Keeps o s r.tree := by
  unfold descend at hr
  split at hr
  next t ht =>
    obtain ⟨q, hq, rfl⟩ := Option.map_eq_some_iff.mp hr
    obtain ⟨htree, hname⟩ := hf t q ht (h.inside id t (Slots.mem_of_find ht)) hq
    exact ⟨everywhere_replaceSection h ht htree hname, rfl⟩
  next => cases hr

lemma Keeps.key {t : IniSection} (h : Keeps o s t) :
    Everywhere (Indexed o) t ∧ changeCase o t.getName = changeCase o s.getName :=
  ⟨h.1, by rw [IniBase.getName, h.2, IniBase.getName]⟩

lemma everywhere_named : Everywhere (Indexed o) (IniSection.named k) :=
  everywhere_congr everywhere_new ⟨List.nodup_nil, List.Perm.refl _, List.Perm.refl _⟩ rfl

lemma everywhere_pushNamed (h : Everywhere (Indexed o) s) (hk : changeCase o (cut k) = k) :
    Everywhere (Indexed o) (s.pushSection o k (.named k)) :=
  everywhere_pushSection h (everywhere_named.mono fun _ (hi : Indexed o _) => hi.distinct) hk

lemma keeps_lastSection (h : Everywhere (Indexed o) s) (hk : changeCase o (cut k) = k) :
    Keeps o s (s.lastSection o k).1 := by
  unfold lastSection
  split
  · exact ⟨h, rfl⟩
  · exact ⟨everywhere_pushNamed h hk, rfl⟩

lemma keeps_setValue {v : YCPValue} {what : ValueProp} (path : List Text) {r : Outcome}
    (h : Everywhere (Indexed o) s) (hpath : ∀ c ∈ path, 0 ∉ c) (hr : setValue o v what path s = some r) :
    Keeps o s r.tree := by
  induction path generalizing s r with
  | nil =>
    cases hr
    exact ⟨h, rfl⟩
  | cons component path ih =>
    have hc := hpath component List.mem_cons_self
    cases path with
    | nil => exact keeps_setMyValue h hc hr
    | cons c path =>
      have hlast := keeps_lastSection h (changeCase_cut_changeCase o hc)
      have hkeep := keeps_descend hlast.1
        (fun t q _ ht hq => (ih ht (fun c hc => hpath c (List.mem_cons_of_mem _ hc)) hq).key) hr
      exact ⟨hkeep.1, hkeep.2.trans hlast.2⟩

lemma name_setSectionProp {what : SectionProp} {t t' : IniSection} {prop : YCPValue}
    (h : Everywhere (Indexed o) t) (ht' : setProp what t prop = some t') : Keeps o t t' := by
  have hi := h.here
  unfold setProp at ht'
  split at ht' <;> cases ht'
  all_goals exact ⟨everywhere_congr h ⟨hi.distinct, hi.values, hi.sections⟩ rfl, rfl⟩

/-- The section that was just added is the last of the container. -/
lemma find_pushSection (h : Distinct s) (t : IniSection) :
    Assoc.find (Slots.fresh s.container) (s.pushSection o k t).container = some (.section (copySection o t)) :=
  Slots.find_of_mem (Slots.nodup_push h _) (Slots.mem_push.mpr (.inr rfl))

lemma keeps_setSectionLoop {what : SectionProp} (hk : changeCase o (cut k) = k) (props : List YCPValue)
    (ids : List Nat) {r : Outcome} (h : Everywhere (Indexed o) s) (hids : ∀ id ∈ ids, s.SectionAt id)
    (hr : setSectionLoop o what k props ids s = some r) : Keeps o s r.tree := by
  induction props generalizing ids s with
  | nil =>
    cases hr
    exact keeps_delSections ids h hids
  | cons prop props ih =>
    cases ids with
    | nil =>
      rw [setSectionLoop] at hr
      have hpush := everywhere_pushNamed h hk
      split at hr
      · cases hr
      · split at hr
        next =>
          cases hr
          exact ⟨hpush, rfl⟩
        next t ht =>
          have hset : Keeps o (.named k) t := name_setSectionProp everywhere_named ht
          have hrep := everywhere_replaceSection hpush (find_pushSection h.here.distinct _) hset.1
            (by rw [IniBase.getName, IniBase.getName, name_copySection, hset.2])
          have hkeep := ih [] hrep (by simp) hr
          exact ⟨hkeep.1, hkeep.2⟩
    | cons id ids =>
      rw [setSectionLoop] at hr
      split at hr
      · cases hr
      · split at hr
        next t ht =>
          split at hr
          next =>
            cases hr
            exact ⟨h, rfl⟩
          next t' ht' =>
            have hset := name_setSectionProp (h.inside id t (Slots.mem_of_find ht)) ht'
            have hrep := everywhere_replaceSection h ht hset.1 hset.key.2
            have hkeep := ih ids hrep
              (fun i hi => sectionAt_replaceSection (hids i (List.mem_cons_of_mem _ hi))) hr
            exact ⟨hkeep.1, hkeep.2⟩
        next => cases hr

lemma keeps_setSectionProp {v : YCPValue} {what : SectionProp} (path : List Text) {r : Outcome}
    (h : Everywhere (Indexed o) s) (hpath : ∀ c ∈ path, 0 ∉ c)
    (hr : setSectionProp o v what path s = some r) : Keeps o s r.tree := by
  induction path generalizing s r with
  | nil =>
    cases hr
    exact ⟨h, rfl⟩
  | cons component path ih =>
    have hk := changeCase_cut_changeCase o (hpath component List.mem_cons_self)
    cases path with
    | nil =>
      rw [setSectionProp] at hr
      split at hr
      · cases hr
        exact ⟨h, rfl⟩
      · exact keeps_setSectionLoop hk _ _ h (fun _ hid => sectionAt_of_mem h.here hid) hr
    | cons c path =>
      have hlast := keeps_lastSection h hk
      have hkeep := keeps_descend hlast.1
        (fun t q _ ht hq => (ih ht (fun c hc => hpath c (List.mem_cons_of_mem _ hc)) hq).key) hr
      exact ⟨hkeep.1, hkeep.2.trans hlast.2⟩

lemma keeps_delValue (path : List Text) {r : Outcome} (h : Everywhere (Indexed o) s)
    (hr : delValue o path s = some r) : Keeps o s r.tree := by
  induction path generalizing s r with
  | nil =>
    cases hr
    exact ⟨h, rfl⟩
  | cons component path ih =>
    cases path with
    | nil =>
      cases hr
      exact keeps_delValues _ h fun _ hid => valueAt_of_mem h.here hid
    | cons c path =>
      rw [delValue] at hr
      split at hr
      · cases hr
        exact ⟨h, rfl⟩
      · exact keeps_descend h (fun t q _ ht hq => (ih ht hq).key) hr
      · simp

lemma keeps_delSection (path : List Text) {r : Outcome} (h : Everywhere (Indexed o) s)
    (hr : delSection o path s = some r) : Keeps o s r.tree := by
  induction path generalizing s r with
  | nil =>
    cases hr
    exact ⟨h, rfl⟩
  | cons component path ih =>
    cases path with
    | nil =>
      cases hr
      exact keeps_delSections _ h fun _ hid => sectionAt_of_mem h.here hid
    | cons c path =>
      rw [delSection] at hr
      split at hr
      · cases hr
        exact ⟨h, rfl⟩
      · exact keeps_descend h (fun t q _ ht hq => (ih ht hq).key) hr
      · simp

end SectionOf

/-! ### Writing all at once -/

section

variable {o : Options}

lemma setAllDoIt_base (b : IniBase) (m : Fields) :
    (b.setAllDoIt m).1.name = (getMapString m (ascii "name")).getD b.name := by
  unfold IniBase.setAllDoIt
  cases hname : getMapString m (ascii "name") with
  | none => rfl
  | some name =>
    dsimp only
    split
    · rfl
    · split <;> rfl

/-- The name is the only thing of a section that its parent has to know. -/
lemma name_setAllDoIt {s : IniSection} {m : Fields} {r : Outcome} (hr : setAllDoIt o s m = some r) :
    r.tree.name = (getMapString m (ascii "name")).getD s.name := by
  rw [← setAllDoIt_base]
  obtain ⟨file, rfl | ⟨l, c, d, ok, hl, hall, rfl⟩⟩ := setAllDoIt_cases hr
  · rfl
  · rfl

/-- A container whose sections are indexed. -/
def Sound (o : Options) (container : List (Nat × Element)) : Prop :=
  (container.map Prod.fst).Nodup ∧ Below (Indexed o) container

lemma sound_setAllItems {l : List YCPValue} {q : List (Nat × Element) × List (Text × Int32) × Bool}
    (hq : setAllItems o [] [] l = some q) : Sound o q.1 := by
  have hnil : Sound o [] := ⟨List.nodup_nil, fun _ _ hmem => absurd hmem List.not_mem_nil⟩
  refine setAllItems_induct hnil ?_ ?_ l hnil hq
  · intro c m hc
    exact ⟨Slots.nodup_push hc.1 _, hc.2.push_value _⟩
  · intro c s hc hs
    have hdistinct : Everywhere Distinct s :=
      .intro hs.1 fun id t hmem => (hs.2 id t hmem).mono fun _ hi => hi.distinct
    exact ⟨Slots.nodup_push hc.1 _, hc.2.push_section (everywhere_copySection o hdistinct)⟩

lemma everywhere_setAllDoIt {s : IniSection} {m : Fields} {r : Outcome} (h : Everywhere (Indexed o) s)
    (hr : setAllDoIt o s m = some r) : Everywhere (Indexed o) r.tree := by
  have hi := h.here
  obtain ⟨file, rfl | ⟨l, c, d, ok, hl, hall, rfl⟩⟩ := setAllDoIt_cases hr
  · exact SectionOf.everywhere_congr h ⟨hi.distinct, hi.values, hi.sections⟩ rfl
  · have hsound := sound_setAllItems hall
    exact .intro (indexed_reindex hsound.1) hsound.2

end

namespace SectionOf

variable {o : Options} {s : IniSection}

/-- The section that `.all` with this path leads to. -/
def allSection (o : Options) : List Text → IniSection → Option IniSection
  | [], s => some s
  | component :: path, s =>
    match (Slots.equalRange (changeCase o component) s.isections).head? with
    | none => none
    | some id =>
      match Assoc.find id s.container with
      | some (.section t) => allSection o path t
      | _ => none

/-- The section that a value renames keeps the key under which its parent finds it. -/
def KeepsKey (o : Options) (path : List Text) (v : YCPValue) : Prop :=
  match v, path.getLast? with
  | .map m, some component =>
    match getMapString m (ascii "name") with
    | some name => changeCase o (cut name) = changeCase o component
    | none => True
  | _, _ => True

/-- Only the section at the end of the path can be renamed. -/
lemma name_setAll {v : YCPValue} {component : Text} {path : List Text} {r : Outcome}
    (hr : setAll o v (component :: path) s = some r) : r.tree.name = s.name := by
  rw [setAll] at hr
  split at hr
  · cases hr
    rfl
  · unfold descend at hr
    split at hr
    · obtain ⟨q, hq, rfl⟩ := Option.map_eq_some_iff.mp hr
      rfl
    · cases hr

/-- The section that a key leads to has this key. -/
lemma key_of_head {component : Text} {id : Nat} {t : IniSection} (h : Indexed o s)
    (hid : (Slots.equalRange (changeCase o component) s.isections).head? = some id)
    (ht : Assoc.find id s.container = some (.section t)) : changeCase o t.getName = changeCase o component := by
  obtain ⟨y, hy, hkey⟩ := h.sections.mem (Slots.mem_equalRange.mp (List.mem_of_mem_head? hid))
  rw [Slots.mem_unique h.distinct hy (Slots.mem_of_find ht)] at hkey
  exact Option.some.inj hkey

/-- The section that a path goes on with keeps its key. -/
lemma key_setAll {v : YCPValue} {component : Text} {path : List Text} {id : Nat} {t : IniSection} {q : Outcome}
    (h : Indexed o s) (hid : (Slots.equalRange (changeCase o component) s.isections).head? = some id)
    (ht : Assoc.find id s.container = some (.section t)) (hq : setAll o v path t = some q)
    (hkey : (allSection o (component :: path) s).isSome → KeepsKey o (component :: path) v) :
    changeCase o q.tree.getName = changeCase o t.getName ∧
      ((allSection o path t).isSome → KeepsKey o path v) := by
  have hsection : allSection o (component :: path) s = allSection o path t := by
    rw [allSection, hid]
    dsimp only
    rw [ht]
  rw [hsection] at hkey
  cases path with
  | nil =>
    refine ⟨?_, fun _ => by simp [KeepsKey]⟩
    have hkeep := hkey rfl
    obtain ⟨m, rfl, hq⟩ := setAll_nil hq
    rw [IniBase.getName, name_setAllDoIt hq]
    unfold KeepsKey at hkeep
    simp only [List.getLast?_singleton] at hkeep
    cases hname : getMapString m (ascii "name") with
    | none => rfl
    | some name =>
      rw [hname] at hkeep
      exact hkeep.trans (key_of_head h hid ht).symm
  | cons c path =>
    refine ⟨by rw [IniBase.getName, name_setAll hq, IniBase.getName], fun hsome => ?_⟩
    have hkeep := hkey hsome
    unfold KeepsKey at hkeep ⊢
    rw [List.getLast?_cons_cons] at hkeep
    exact hkeep

lemma everywhere_setAll {v : YCPValue} (path : List Text) {r : Outcome} (h : Everywhere (Indexed o) s)
    (hr : setAll o v path s = some r)
    (hkey : (allSection o path s).isSome → KeepsKey o path v) : Everywhere (Indexed o) r.tree := by
  induction path generalizing s r with
  | nil =>
    obtain ⟨m, -, hr⟩ := setAll_nil hr
    exact everywhere_setAllDoIt h hr
  | cons component path ih =>
    rw [setAll] at hr
    split at hr
    · cases hr
      exact h
    next id hid =>
      refine (keeps_descend h (fun t q ht hall hq => ?_) hr).1
      obtain ⟨hname, htail⟩ := key_setAll h.here hid ht hq hkey
      exact ⟨ih hall hq htail, hname⟩

end SectionOf

/-! ### Saving -/

lemma cleanContainer_eq (container : List (Nat × Element)) :
    cleanContainer container = container.map fun x => (x.1, cleanElement x.2) := by
  induction container with
  | nil => rfl
  | cons x container ih => rw [cleanContainer, ih, List.map_cons]

lemma clean_eq (s : IniSection) :
    Ini.clean s = { s with dirty := false, container := cleanContainer s.container } := by
  cases s
  rfl

lemma entries_cleanContainer {κ : Type} {key : Element → Option κ} (hkey : ∀ x, key (cleanElement x) = key x)
    (container : List (Nat × Element)) :
    Slots.entries key (cleanContainer container) = Slots.entries key container := by
  rw [cleanContainer_eq, Slots.entries, Slots.entries, List.filterMap_map]
  refine List.filterMap_congr fun x _ => ?_
  rw [Function.comp_apply, hkey]

lemma everywhere_clean {o : Options} {s : IniSection} (h : Everywhere (Indexed o) s) :
    Everywhere (Indexed o) (Ini.clean s) := by
  induction h with
  | @intro s here below ih =>
    rw [clean_eq]
    refine .intro ⟨?_, ?_, ?_⟩ ?_
    · rw [Distinct, cleanContainer_eq, List.map_map]
      exact here.distinct
    · rw [Slots.Indexes, entries_cleanContainer]
      · exact here.values
      · intro x
        cases x <;> rfl
    · rw [Slots.Indexes, entries_cleanContainer]
      · exact here.sections
      · intro x
        cases x with
        | value e => rfl
        | «section» t =>
          rw [cleanElement, clean_eq]
          rfl
    · intro id t hmem
      have hmem : (id, Element.section t) ∈ cleanContainer s.container := hmem
      rw [cleanContainer_eq] at hmem
      obtain ⟨⟨i, x⟩, hx, heq⟩ := List.mem_map.mp hmem
      cases x with
      | value e => cases heq
      | «section» u =>
        cases heq
        exact ih _ u hx

/-! ### Runs -/

/-- A call of the parser for a section, in parsing or in saving, or an operation of the agent. -/
inductive Op where
  | initValue (place : List Nat) (key val comment : Text) (rb : Int32)
  | initSection (place : List Nat) (name comment : Text) (rb wb : Int32)
  | setEndComment (place : List Nat) (c : Text)
  | initReadBy (place : List Nat)
  | clean (place : List Nat)
  | setDirty
  | read
  | write (p : List Text) (v : YCPValue) (rewrite : Bool)
  | delete (p : List Text)

def step (o : Options) (s : IniSection) : Op → Option IniSection
  | .initValue place key val comment rb => SectionOf.atPlace (·.initValue o key val comment rb) place s
  | .initSection place name comment rb wb => SectionOf.atPlace (·.initSection o name comment rb wb) place s
  | .setEndComment place c => SectionOf.atPlace (fun t => some (t.setEndComment c)) place s
  | .initReadBy place => SectionOf.atPlace (fun t => some t.initReadBy) place s
  | .clean place => SectionOf.atPlace (fun t => some (Ini.clean t)) place s
  | .setDirty => some s.setDirty
  | .read => some s
  | .write p v rewrite => (s.write o rewrite p v).map Outcome.tree
  | .delete p => (s.delete o p).map Outcome.tree

/-- The names have no NUL, and a section that is written as a whole keeps its key. -/
def Names (o : Options) (s : IniSection) : Op → Prop
  | .initValue _ key _ _ _ => 0 ∉ key
  | .initSection _ name _ _ _ => 0 ∉ name
  | .write p v _ => (∀ c ∈ p, 0 ∉ c) ∧
      (o.flat = false → p.head? = some (ascii "all") → (s.allSection o p.tail).isSome →
        SectionOf.KeepsKey o p.tail v)
  | _ => True

/-- The trees that such operations lead to. -/
inductive Reached (o : Options) : IniSection → Prop where
  | new : Reached o .new
  | step {s s' : IniSection} (op : Op) (h : Reached o s) (hnames : Names o s op) (hs' : step o s op = some s') :
    Reached o s'

section

variable {o : Options} {s s' : IniSection}

lemma everywhere_atPlace {f : IniSection → Option IniSection} (place : List Nat) (h : Everywhere (Indexed o) s)
    (hf : ∀ t t', Everywhere (Indexed o) t → f t = some t' → Everywhere (Indexed o) t' ∧ t'.name = t.name)
    (hs' : SectionOf.atPlace f place s = some s') : Everywhere (Indexed o) s' ∧ s'.name = s.name := by
  induction place generalizing s s' with
  | nil => exact hf s s' h hs'
  | cons id place ih =>
    rw [SectionOf.atPlace] at hs'
    split at hs'
    next t ht =>
      obtain ⟨t', ht', rfl⟩ := Option.map_eq_some_iff.mp hs'
      have hkeep := ih (h.inside id t (Slots.mem_of_find ht)) ht'
      refine ⟨SectionOf.everywhere_replaceSection h ht hkeep.1 ?_, rfl⟩
      rw [IniBase.getName, IniBase.getName, hkeep.2]
    · cases hs'

lemma everywhere_write {rewrite : Bool} {p : List Text} {v : YCPValue} {r : Outcome}
    (h : Everywhere (Indexed o) s) (hnames : Names o s (.write p v rewrite))
    (hr : s.write o rewrite p v = some r) : Everywhere (Indexed o) r.tree := by
  obtain ⟨hpath, hall⟩ := hnames
  rcases SectionOf.write_cases hr with
    ⟨rfl, -⟩ | ⟨-, c, path, rfl, hmy⟩ | ⟨hflat, path, rfl, hset⟩ | ⟨-, c, path, rfl, -, -, hset⟩
  · exact h
  · exact (SectionOf.keeps_setMyValue h (hpath c List.mem_cons_self) hmy).1
  · exact SectionOf.everywhere_setAll path h hset (hall hflat rfl)
  · have hpath : ∀ c ∈ path, 0 ∉ c := fun c' hc' => hpath c' (List.mem_cons_of_mem _ hc')
    rcases hset with ⟨what, -, hset⟩ | ⟨-, what, hset⟩
    · exact (SectionOf.keeps_setValue path h hpath hset).1
    · exact (SectionOf.keeps_setSectionProp path h hpath hset).1

lemma everywhere_delete {p : List Text} {r : Outcome} (h : Everywhere (Indexed o) s)
    (hr : s.delete o p = some r) : Everywhere (Indexed o) r.tree := by
  rcases SectionOf.delete_cases hr with
    ⟨rfl, -⟩ | ⟨-, c, path, rfl, rfl⟩ | ⟨-, c, path, rfl, -, ⟨-, hdel⟩ | ⟨-, -, hdel⟩⟩
  · exact h
  · exact (SectionOf.keeps_delValues _ h fun _ hid => SectionOf.valueAt_of_mem h.here hid).1
  · exact (SectionOf.keeps_delValue path h hdel).1
  · exact (SectionOf.keeps_delSection path h hdel).1

lemma everywhere_step (op : Op) (h : Everywhere (Indexed o) s) (hnames : Names o s op)
    (hs' : step o s op = some s') : Everywhere (Indexed o) s' := by
  cases op with
  | initValue place key val comment rb =>
    refine (everywhere_atPlace place h (fun t t' ht ht' => ⟨?_, ?_⟩) hs').1
    · exact SectionOf.everywhere_initValue ht hnames ht'
    · exact SectionOf.name_initValue ht'
  | initSection place name comment rb wb =>
    refine (everywhere_atPlace place h (fun t t' ht ht' => ⟨?_, ?_⟩) hs').1
    · exact SectionOf.everywhere_initSection ht hnames ht'
    · exact SectionOf.name_initSection ht'
  | setEndComment place c =>
    refine (everywhere_atPlace place h (fun t t' ht ht' => ?_) hs').1
    cases ht'
    exact ⟨SectionOf.everywhere_setEndComment ht, SectionOf.name_setEndComment⟩
  | initReadBy place =>
    refine (everywhere_atPlace place h (fun t t' ht ht' => ?_) hs').1
    cases ht'
    exact ⟨SectionOf.everywhere_withBase ht, rfl⟩
  | clean place =>
    refine (everywhere_atPlace place h (fun t t' ht ht' => ?_) hs').1
    cases ht'
    exact ⟨everywhere_clean ht, by rw [clean_eq]⟩
  | setDirty =>
    cases hs'
    exact SectionOf.everywhere_withBase h
  | read =>
    cases hs'
    exact h
  | write p v rewrite =>
    obtain ⟨r, hr, rfl⟩ := Option.map_eq_some_iff.mp hs'
    exact everywhere_write h hnames hr
  | delete p =>
    obtain ⟨r, hr, rfl⟩ := Option.map_eq_some_iff.mp hs'
    exact everywhere_delete h hr

lemma everywhere_of_reached (h : Reached o s) : Everywhere (Indexed o) s := by
  induction h with
  | new => exact SectionOf.everywhere_new
  | step op h hnames hs' ih => exact everywhere_step op ih hnames hs'

/-- In every tree that is reached, the multimaps of every section index its container. -/
theorem indexed_of_reached (h : Reached o s) : Everywhere (Indexed o) s := by
  induction h with
  | new => exact SectionOf.everywhere_new
  | step op h hnames hs' ih => exact everywhere_step op ih hnames hs'

end

/-- The options of a file with case and with one value for a name. -/
def Options.plain : Options := ⟨false, false, false, false, false, fun _ => []⟩

/-- Writes a value of the section `a`. -/
def writeValue : Op := .write [ascii "v", ascii "a", ascii "k"] (.string (ascii "x")) false

/-- Writes the section `a` as a whole, with nothing but a name. -/
def writeName (n : Text) : Op :=
  .write [ascii "all", ascii "a"] (.map [(.string (ascii "name"), .string n)]) false

/-- The trees that any operations lead to. -/
def run (o : Options) (ops : List Op) : Option IniSection := ops.foldlM (step o) .new

/-- The section `a` with the value `x` of the key `k`, under a name. -/
def sectionA (n : Text) : IniSection :=
  { IniSection.named n with
    container := [(1, .value ⟨⟨ascii "k", [], 0, true⟩, ascii "x"⟩)]
    ivalues := [(ascii "k", 1)] }

def treeA (n : Text) : IniSection :=
  { IniSection.new with container := [(1, .section (sectionA n))], isections := [(ascii "a", 1)] }

lemma step_writeValue : step .plain .new writeValue = some (treeA (ascii "a")) := rfl

lemma step_writeName (n : Text) : step .plain (treeA (ascii "a")) (writeName n) = some (treeA n) := by
  have hall : setAllDoIt .plain (sectionA (ascii "a")) [(.string (ascii "name"), .string n)] =
      some ⟨sectionA n, [], false⟩ := setAllDoIt_incomplete rfl
  have hstep : step .plain (treeA (ascii "a")) (writeName n) =
      ((setAllDoIt .plain (sectionA (ascii "a")) [(.string (ascii "name"), .string n)]).map fun r =>
        { r with tree := (treeA (ascii "a")).replace 1 (.section r.tree) }).map Outcome.tree := rfl
  rw [hstep, hall]
  rfl

lemma run_writeName (n : Text) : run .plain [writeValue, writeName n] = some (treeA n) := by
  simp only [run, List.foldlM_cons, List.foldlM_nil, step_writeValue, Option.bind_eq_bind, Option.bind_some,
    step_writeName]
  rfl

theorem indexed_of_reached_rewritten :
    run .plain [writeValue, writeName (ascii "a")] = some (treeA (ascii "a")) ∧
      Everywhere (Indexed .plain) (treeA (ascii "a")) := by
  have hwrite : Reached .plain (treeA (ascii "a")) :=
    .step writeValue .new ⟨by decide, fun _ h => absurd h (by decide)⟩ rfl
  refine ⟨run_writeName _, indexed_of_reached (.step (writeName _) hwrite ?_ (step_writeName _))⟩
  exact ⟨by decide, fun _ _ _ => rfl⟩

/-- A section that is renamed stays in the multimap of its parent under the name it had. -/
theorem not_indexed_renamed :
    run .plain [writeValue, writeName (ascii "b")] = some (treeA (ascii "b")) ∧
      ¬ Everywhere (Indexed .plain) (treeA (ascii "b")) := by
  refine ⟨run_writeName _, fun h => ?_⟩
  have hmem : (ascii "a", 1) ∈ Slots.entries (sectionKey .plain) (treeA (ascii "b")).container :=
    h.here.sections.mem_iff.mp List.mem_cons_self
  exact absurd hmem (by decide)

end YastCore.Ini
