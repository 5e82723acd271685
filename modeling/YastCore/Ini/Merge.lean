import YastCore.Ini.Dirty
import YastCore.Ini.Store

/-!
# A file that somebody else has changed

Before the parser saves a tree it reads a file that was changed into the tree. Entries that were written in
memory are dirty and stay; an entry that was deleted leaves no trace, and the parser adds it again.
-/

namespace YastCore.Ini

open Lines

/-! ### Parsing -/

/-- What the parser finds in a file: the values, and the sections with what it finds in them. -/
inductive Item where
  | value (key val comment : Text) (rb : Int32)
  | section (name comment : Text) (rb wb : Int32) (items : List Item)
  | endComment (c : Text)

/-- A call for the section at the end of the container, to which `initSection` gives the reference. -/
def SectionOf.onLast (f : IniSection → Option IniSection) (s : IniSection) : Option IniSection :=
  match s.container.getLast? with
  | some (id, .section t) => (f t).map fun t => s.replace id (.section t)
  | _ => none

mutual

def loadItem (o : Options) : Item → IniSection → Option IniSection
  | .value key val comment rb, s => s.initValue o key val comment rb
  | .section name comment rb wb items, s =>
    (s.initSection o name comment rb wb).bind (SectionOf.onLast (loadItems o items))
  | .endComment c, s => some (s.setEndComment c)

/-- `parse_helper` -/
def loadItems (o : Options) : List Item → IniSection → Option IniSection
  | [], s => some s
  | item :: items, s => (loadItem o item s).bind (loadItems o items)

end

mutual

/-- The keys of the values of an item. -/
def itemKeys (o : Options) : Item → List (List Text)
  | .value key _ _ _ => [[changeCase o key]]
  | .section name _ _ _ items => (keysOf o items).map (changeCase o name :: ·)
  | .endComment _ => []

def keysOf (o : Options) : List Item → List (List Text)
  | [] => []
  | item :: items => itemKeys o item ++ keysOf o items

end

mutual

/-- The names are C strings, and the type of a value is the rule by which it was found. -/
def Item.Plain (params : Nat) : Item → Prop
  | .value key _ _ rb => 0 ∉ key ∧ 0 ≤ rb.toInt ∧ rb.toInt < params
  | .section name _ _ _ items => 0 ∉ name ∧ AllPlain params items
  | .endComment _ => True

def AllPlain (params : Nat) : List Item → Prop
  | [] => True
  | item :: items => item.Plain params ∧ AllPlain params items

end

/-! ### Saving -/

/-- `write_helper` prints a value by the rule that its type names. -/
def Printed (params : Nat) (e : IniEntry) : Prop := 0 ≤ e.read_by.toInt ∧ e.read_by.toInt < params

instance (params : Nat) (e : IniEntry) : Decidable (Printed params e) := inferInstanceAs (Decidable (_ ∧ _))

mutual

def emittedElement (o : Options) (params : Nat) : Element → List (List Text × Text)
  | .value e => if Printed params e then [([changeCase o e.getName], cut e.val)] else []
  | .section s => (emitted o params s).map fun x => (changeCase o s.getName :: x.1, x.2)

/-- The values that `write_helper` prints, with the names of the sections around them. -/
def emitted (o : Options) (params : Nat) : SectionOf Element → List (List Text × Text)
  | s => emittedContainer o params s.container

def emittedContainer (o : Options) (params : Nat) : List (Nat × Element) → List (List Text × Text)
  | [] => []
  | x :: container => emittedElement o params x.2 ++ emittedContainer o params container

end

/-- `IniParser::write` when the file has changed: the tree that is written, if one is. -/
def writeChanged (o : Options) (read_only : Bool) (items : List Item) (s : IniSection) : Option IniSection :=
  if !isDirty s then none
  else if read_only then none
  else if o.repeat_names then some s
  else loadItems o items s

section

variable {o : Options} {params : Nat}

lemma mem_emittedContainer {container : List (Nat × Element)} {y : List Text × Text} :
    y ∈ emittedContainer o params container ↔ ∃ x ∈ container, y ∈ emittedElement o params x.2 := by
  induction container with
  | nil => simp [emittedContainer]
  | cons x container ih => simp [emittedContainer, ih]

lemma emitted_eq (s : IniSection) : emitted o params s = emittedContainer o params s.container := by
  cases s
  rfl

lemma mem_emittedElement {p : List Text} {v : Text} {x : Element} :
    (p, v) ∈ emittedElement o params x ↔ ∃ e, EntryOf o p e x ∧ Printed params e ∧ cut e.val = v := by
  induction p generalizing x with
  | nil =>
    cases x with
    | value e => by_cases he : Printed params e <;> simp [emittedElement, he]
    | «section» t => simp [emittedElement]
  | cons c p ih =>
    cases x with
    | value e =>
      by_cases he : Printed params e
      · simp only [emittedElement, if_pos he, List.mem_singleton, Prod.mk.injEq, EntryOf]
        constructor
        · rintro ⟨hp, rfl⟩
          obtain ⟨hc, rfl⟩ := List.cons.inj hp
          exact ⟨e, ⟨rfl, hc, rfl⟩, he, rfl⟩
        · rintro ⟨e', ⟨rfl, hc, rfl⟩, -, hv⟩
          exact ⟨by rw [hc], hv.symm⟩
      · simp only [emittedElement, if_neg he, List.not_mem_nil, false_iff, EntryOf]
        rintro ⟨e', ⟨-, -, rfl⟩, hprinted, -⟩
        exact he hprinted
    | «section» t =>
      simp only [emittedElement, emitted_eq, List.mem_map, mem_emittedContainer, EntryOf]
      constructor
      · rintro ⟨⟨p', v'⟩, ⟨x, hx, hmem⟩, heq⟩
        obtain ⟨hp, rfl⟩ := Prod.mk.inj heq
        obtain ⟨hc, rfl⟩ := List.cons.inj hp
        obtain ⟨e, hof, he⟩ := ih.mp hmem
        exact ⟨e, ⟨hc.symm, x, hx, hof⟩, he⟩
      · rintro ⟨e, ⟨hc, x, hx, hof⟩, he⟩
        exact ⟨(p, v), ⟨x, hx, ih.mpr ⟨e, hof, he⟩⟩, by rw [hc]⟩

/-- What is printed is the entries of the tree. -/
lemma mem_emitted {p : List Text} {v : Text} {s : IniSection} :
    (p, v) ∈ emitted o params s ↔ ∃ e, Entry o p e s ∧ Printed params e ∧ cut e.val = v := by
  rw [emitted_eq, mem_emittedContainer]
  constructor
  · rintro ⟨x, hx, hmem⟩
    obtain ⟨e, hof, he⟩ := mem_emittedElement.mp hmem
    exact ⟨e, ⟨x, hx, hof⟩, he⟩
  · rintro ⟨e, ⟨x, hx, hof⟩, he⟩
    exact ⟨x, hx, mem_emittedElement.mpr ⟨e, hof, he⟩⟩

end

/-! ### What parsing does to the entries -/

/-- A tree whose indices are right and whose names are unique. -/
structure Regular (o : Options) (s : IniSection) : Prop where
  indexed : Everywhere (Indexed o) s
  unique : Everywhere (Unique o) s

lemma Regular.distinct {o : Options} {s : IniSection} (h : Regular o s) : Everywhere Distinct s :=
  h.indexed.mono fun _ hi => hi.distinct

/-- The keys that are read are there, and dirty entries and those of other keys stay. What is new is printed. -/
structure Loaded (o : Options) (params : Nat) (keys : List (List Text)) (s s' : IniSection) : Prop where
  keep : ∀ p, p ∉ keys → ∀ e, Entry o p e s' ↔ Entry o p e s
  dirty : ∀ p e, e.dirty = true → Entry o p e s → Entry o p e s'
  found : ∀ p ∈ keys, ∃ e, Entry o p e s'
  origin : ∀ p e, Entry o p e s' → Entry o p e s ∨ Printed params e

section

variable {o : Options} {params : Nat} {s s' s'' : IniSection} {k : Text} {id : Nat}

lemma Loaded.trans {keys keys' : List (List Text)} (h : Loaded o params keys s s')
    (h' : Loaded o params keys' s' s'') : Loaded o params (keys ++ keys') s s'' := by
  refine ⟨fun p hp e => ?_, fun p e hd he => h'.dirty p e hd (h.dirty p e hd he), fun p hp => ?_, fun p e he => ?_⟩
  · rw [List.mem_append, not_or] at hp
    rw [h'.keep p hp.2, h.keep p hp.1]
  · by_cases hp' : p ∈ keys'
    · exact h'.found p hp'
    · obtain ⟨e, he⟩ := h.found p ((List.mem_append.mp hp).resolve_right hp')
      exact ⟨e, (h'.keep p hp' e).mpr he⟩
  · rcases h'.origin p e he with he | hprinted
    · exact h.origin p e he
    · exact .inr hprinted

lemma Loaded.of_same (h : ∀ p e, Entry o p e s' ↔ Entry o p e s) : Loaded o params [] s s' :=
  ⟨fun p _ => h p, fun p e _ he => (h p e).mpr he, fun _ hp => absurd hp List.not_mem_nil,
    fun p e he => .inl ((h p e).mp he)⟩

lemma entryIn_erase {p : List Text} {e : IniEntry} {container : List (Nat × Element)} :
    EntryIn o p e (Slots.erase id container) ↔ Others o p e [id] container := by
  simp only [EntryIn, Others, Slots.mem_erase, List.mem_singleton, and_assoc]

lemma Unique.of_subset {s' : IniSection} (h : Unique o s) (hsub : ∀ x ∈ s'.container, x ∈ s.container) :
    Unique o s' :=
  ⟨fun i j t u ht hu => h.sections i j t u (hsub _ ht) (hsub _ hu),
    fun i j d e hd he => h.values i j d e (hsub _ hd) (hsub _ he)⟩

lemma Unique.push_value {e : IniEntry} (h : Unique o s)
    (hnew : ∀ i d, (i, Element.value d) ∈ s.container → changeCase o d.getName ≠ changeCase o e.getName) :
    Unique o (s.pushValue k e) := by
  constructor
  · intro i j t u ht hu hkey
    rcases Slots.mem_push.mp ht with ht | heq
    · rcases Slots.mem_push.mp hu with hu | heq
      · exact h.sections i j t u ht hu hkey
      · cases heq
    · cases heq
  · intro i j d d' hd hd' hkey
    rcases Slots.mem_push.mp hd with hd | heq
    · rcases Slots.mem_push.mp hd' with hd' | heq'
      · exact h.values i j d d' hd hd' hkey
      · cases heq'
        exact absurd hkey (hnew i d hd)
    · cases heq
      rcases Slots.mem_push.mp hd' with hd' | heq'
      · exact absurd hkey.symm (hnew j d' hd')
      · cases heq'
        rfl

lemma Unique.push_section {t : IniSection} (h : Unique o s)
    (hnew : ∀ i u, (i, Element.section u) ∈ s.container → changeCase o u.getName ≠ changeCase o t.getName) :
    Unique o (s.pushSection o k t) := by
  have hname : changeCase o (copySection o t).getName = changeCase o t.getName := by
    rw [IniBase.getName, name_copySection, IniBase.getName]
  constructor
  · intro i j u u' hu hu' hkey
    rcases Slots.mem_push.mp hu with hu | heq
    · rcases Slots.mem_push.mp hu' with hu' | heq'
      · exact h.sections i j u u' hu hu' hkey
      · cases heq'
        exact absurd (hkey.trans hname) (hnew i u hu)
    · cases heq
      rcases Slots.mem_push.mp hu' with hu' | heq'
      · exact absurd (hkey.symm.trans hname) (hnew j u' hu')
      · cases heq'
        rfl
  · intro i j d e hd he hkey
    rcases Slots.mem_push.mp hd with hd | heq
    · rcases Slots.mem_push.mp he with he | heq
      · exact h.values i j d e hd he hkey
      · cases heq
    · cases heq

lemma unique_copySection (h : Everywhere (Unique o) s) : Everywhere (Unique o) (copySection o s) := by
  induction h with
  | @intro s here below ih =>
    have hmem : ∀ {i x}, (i, x) ∈ (copySection o s).container → ∃ y, (i, y) ∈ s.container ∧ x = copyElement o y := by
      intro i x hx
      rw [copySection_eq] at hx
      have hx : (i, x) ∈ copyContainer o s.container := hx
      rw [copyContainer_eq] at hx
      obtain ⟨⟨j, y⟩, hy, heq⟩ := List.mem_map.mp hx
      cases heq
      exact ⟨y, hy, rfl⟩
    refine .intro ⟨fun i j t u ht hu hkey => ?_, fun i j d e hd he hkey => ?_⟩ fun i t ht => ?_
    · obtain ⟨y, hy, hty⟩ := hmem ht
      obtain ⟨z, hz, huz⟩ := hmem hu
      cases y with
      | value d => cases hty
      | «section» t' =>
        cases z with
        | value d => cases huz
        | «section» u' =>
          cases hty
          cases huz
          rw [IniBase.getName, IniBase.getName, name_copySection, name_copySection] at hkey
          exact here.sections i j t' u' hy hz hkey
    · obtain ⟨y, hy, hdy⟩ := hmem hd
      obtain ⟨z, hz, hez⟩ := hmem he
      cases y with
      | value d' =>
        cases z with
        | value e' =>
          cases hdy
          cases hez
          exact here.values i j _ _ hy hz hkey
        | «section» u => cases hez
      | «section» t => cases hdy
    · obtain ⟨y, hy, hty⟩ := hmem ht
      cases y with
      | value d => cases hty
      | «section» t' =>
        cases hty
        exact ih i t' hy

/-- A value that is new, or the one that is there and goes to the end. -/
lemma initValue_cases {key val comment : Text} {rb : Int32} (h : Indexed o s) (hrepeat : o.repeat_names = false)
    (hs' : s.initValue o key val comment rb = some s') :
    ((∀ i d, (i, Element.value d) ∈ s.container → changeCase o d.getName ≠ changeCase o key) ∧
      s' = s.pushValue (changeCase o key) (IniEntry.new.init (changeCase o key) comment rb val)) ∨
    ∃ id e, (id, Element.value e) ∈ s.container ∧ changeCase o e.getName = changeCase o key ∧
      s' = (s.eraseValue id).pushValue (changeCase o key) (e.init (changeCase o key) comment rb val) := by
  unfold SectionOf.initValue at hs'
  dsimp only at hs'
  rw [if_neg (by simp [hrepeat])] at hs'
  split at hs'
  next hnone =>
    cases hs'
    refine .inl ⟨fun i d hd hkey => ?_, rfl⟩
    rw [List.head?_eq_none_iff] at hnone
    have hid : i ∈ Slots.equalRange (changeCase o key) s.ivalues := by
      refine Slots.mem_equalRange.mpr (h.values.mem_iff.mpr (List.mem_filterMap.mpr ⟨_, hd, ?_⟩))
      rw [← hkey]
      rfl
    rw [hnone] at hid
    exact List.not_mem_nil hid
  next id hid =>
    split at hs'
    next e he =>
      cases hs'
      have hmem := Slots.mem_of_find he
      obtain ⟨y, hy, hkey⟩ := h.values.mem (Slots.mem_equalRange.mp (List.mem_of_mem_head? hid))
      rw [Slots.mem_unique h.distinct hy hmem] at hkey
      exact .inr ⟨id, e, hmem, Option.some.inj hkey, rfl⟩
    next => cases hs'

lemma key_init {e : IniEntry} {key val comment : Text} {rb : Int32} (hkey : 0 ∉ key)
    (he : e.dirty = true → changeCase o e.getName = changeCase o key) :
    changeCase o (e.init (changeCase o key) comment rb val).getName = changeCase o key := by
  by_cases hd : e.dirty
  · rw [IniEntry.init, if_pos hd]
    exact he hd
  · rw [IniEntry.init, if_neg hd, IniBase.init, if_neg hd]
    exact changeCase_cut_changeCase o hkey

/-- A value that is not dirty takes what was read. -/
lemma printed_init {e : IniEntry} {key val comment : Text} {rb : Int32} (hrb : 0 ≤ rb.toInt ∧ rb.toInt < params)
    (hd : e.dirty = false) : Printed params (e.init key comment rb val) := by
  rw [IniEntry.init, if_neg (by simp [hd]), IniBase.init, if_neg (by simp [hd])]
  exact hrb

lemma loaded_initValue {key val comment : Text} {rb : Int32} (h : Regular o s) (hrepeat : o.repeat_names = false)
    (hkey : 0 ∉ key) (hrb : 0 ≤ rb.toInt ∧ rb.toInt < params)
    (hs' : s.initValue o key val comment rb = some s') :
    Regular o s' ∧ Loaded o params [[changeCase o key]] s s' := by
  have hindexed := SectionOf.everywhere_initValue h.indexed hkey hs'
  rcases initValue_cases h.indexed.here hrepeat hs' with ⟨hnew, rfl⟩ | ⟨id, e₀, hmem, he₀, rfl⟩
  · have hname : changeCase o (IniEntry.new.init (changeCase o key) comment rb val).getName = changeCase o key :=
      key_init hkey fun hd => by cases hd
    refine ⟨⟨hindexed, .intro (h.unique.here.push_value (by rwa [hname])) (h.unique.inside.push_value _)⟩, ?_⟩
    refine ⟨fun p hp e => ?_, fun p e _ he => entry_pushValue.mpr (.inl he), fun p hp => ?_, fun p e he => ?_⟩
    · rw [List.mem_singleton] at hp
      rw [entry_pushValue, entryOf_value, hname]
      exact or_iff_left fun hof => hp hof.1
    · rw [List.mem_singleton] at hp
      subst hp
      exact ⟨_, entry_pushValue.mpr (.inr (entryOf_value.mpr ⟨by rw [hname], rfl⟩))⟩
    · rcases entry_pushValue.mp he with he | hof
      · exact .inl he
      · rw [← (entryOf_value.mp hof).2]
        exact .inr (printed_init hrb rfl)
  · have hname : changeCase o (e₀.init (changeCase o key) comment rb val).getName = changeCase o key :=
      key_init hkey fun _ => he₀
    have hsub : ∀ x ∈ (s.eraseValue id).container, x ∈ s.container := fun x hx => (Slots.mem_erase.mp hx).1
    have hothers : ∀ {p e}, Entry o p e (s.eraseValue id) ↔ Others o p e [id] s.container := entryIn_erase
    have hsplit : ∀ {p e}, Entry o p e s ↔ EntryOf o p e (.value e₀) ∨ Others o p e [id] s.container :=
      entryIn_iff_others h.indexed.here.distinct hmem
    refine ⟨⟨hindexed, .intro ?_ ((h.unique.inside.erase id).push_value _)⟩, ?_⟩
    · refine (h.unique.here.of_subset hsub).push_value fun i d hd hkeyd => ?_
      rw [hname, ← he₀] at hkeyd
      have hi := h.unique.here.values i id d e₀ (hsub _ hd) hmem hkeyd
      exact (Slots.mem_erase.mp hd).2 hi
    · refine ⟨fun p hp e => ?_, fun p e hd he => ?_, fun p hp => ?_, fun p e he => ?_⟩
      · rw [List.mem_singleton] at hp
        rw [entry_pushValue, hothers, hsplit, entryOf_value, entryOf_value, hname, he₀]
        constructor
        · rintro (hin | ⟨heq, -⟩)
          · exact .inr hin
          · exact absurd heq hp
        · rintro (⟨heq, -⟩ | hin)
          · exact absurd heq hp
          · exact .inl hin
      · rw [entry_pushValue, hothers]
        rcases hsplit.mp he with hof | hin
        · obtain ⟨hp, rfl⟩ := entryOf_value.mp hof
          refine .inr (entryOf_value.mpr ⟨by rw [hname, ← he₀]; exact hp, ?_⟩)
          rw [IniEntry.init, if_pos hd]
        · exact .inl hin
      · rw [List.mem_singleton] at hp
        subst hp
        exact ⟨_, entry_pushValue.mpr (.inr (entryOf_value.mpr ⟨by rw [hname], rfl⟩))⟩
      · rw [entry_pushValue, hothers] at he
        rcases he with hin | hof
        · exact .inl (hsplit.mpr (.inr hin))
        · obtain ⟨hp, rfl⟩ := entryOf_value.mp hof
          by_cases hd : e₀.dirty
          · refine .inl (hsplit.mpr (.inl (entryOf_value.mpr ⟨by rw [hp, hname, he₀], ?_⟩)))
            rw [IniEntry.init, if_pos hd]
          · exact .inr (printed_init hrb (by simpa using hd))

/-- A section that is new and empty, or the one that is there and goes to the end. -/
lemma initSection_cases {name comment : Text} {rb wb : Int32} (h : Indexed o s) (hrepeat : o.repeat_names = false)
    (hs' : s.initSection o name comment rb wb = some s') :
    ((∀ i u, (i, Element.section u) ∈ s.container → changeCase o u.getName ≠ changeCase o name) ∧
      s' = s.pushSection o (changeCase o name)
        (SectionOf.initialized (changeCase o name) comment rb wb IniSection.new)) ∨
    ∃ id t, (id, Element.section t) ∈ s.container ∧ changeCase o t.getName = changeCase o name ∧
      s' = (s.eraseSection id).pushSection o (changeCase o name)
        (if t.dirty then t else SectionOf.initialized (changeCase o name) comment rb wb t) := by
  unfold SectionOf.initSection at hs'
  dsimp only at hs'
  rw [if_neg (by simp [hrepeat])] at hs'
  split at hs'
  next hnone =>
    cases hs'
    refine .inl ⟨fun i u hu hkey => ?_, rfl⟩
    rw [List.head?_eq_none_iff] at hnone
    have hid : i ∈ Slots.equalRange (changeCase o name) s.isections := by
      refine Slots.mem_equalRange.mpr (h.sections.mem_iff.mpr (List.mem_filterMap.mpr ⟨_, hu, ?_⟩))
      rw [← hkey]
      rfl
    rw [hnone] at hid
    exact List.not_mem_nil hid
  next id hid =>
    split at hs'
    next t ht =>
      cases hs'
      exact .inr ⟨id, t, Slots.mem_of_find ht, SectionOf.key_of_head h hid ht, rfl⟩
    next => cases hs'

/-- The section to which `initSection` gives the reference, in a tree with the entries of before. -/
lemma loaded_initSection {name comment : Text} {rb wb : Int32} (h : Regular o s)
    (hrepeat : o.repeat_names = false) (hname : 0 ∉ name) (hs' : s.initSection o name comment rb wb = some s') :
    Regular o s' ∧ (∀ p e, Entry o p e s' ↔ Entry o p e s) ∧
      ∃ id t, s'.container.getLast? = some (id, .section t) ∧ changeCase o t.getName = changeCase o name := by
  have hindexed := SectionOf.everywhere_initSection h.indexed hname hs'
  have hk := changeCase_cut_changeCase o hname
  have hlast : ∀ (s : IniSection) (t : IniSection), changeCase o t.getName = changeCase o name →
      ∃ id u, (s.pushSection o (changeCase o name) t).container.getLast? = some (id, .section u) ∧
        changeCase o u.getName = changeCase o name := by
    intro s t ht
    refine ⟨_, copySection o t, List.getLast?_concat, ?_⟩
    rw [IniBase.getName, name_copySection]
    exact ht
  rcases initSection_cases h.indexed.here hrepeat hs' with ⟨hnew, rfl⟩ | ⟨id, t, hmem, ht, rfl⟩
  · let t := SectionOf.initialized (changeCase o name) comment rb wb IniSection.new
    have hkey : changeCase o t.getName = changeCase o name := hk
    have hut : Everywhere (Unique o) t := .intro
      ⟨fun _ _ _ _ hmem => absurd hmem List.not_mem_nil, fun _ _ _ _ hmem => absurd hmem List.not_mem_nil⟩
      fun _ _ hmem => absurd hmem List.not_mem_nil
    refine ⟨⟨hindexed, .intro (h.unique.here.push_section (by rwa [hkey])) ?_⟩, fun p e => ?_, hlast s t hkey⟩
    · exact h.unique.inside.push_section (unique_copySection hut)
    · rw [entry_pushSection]
      refine or_iff_left fun hof => ?_
      obtain ⟨p', -, x, hx, -⟩ := entryOf_section.mp hof
      exact List.not_mem_nil hx
  · generalize htnew : (if t.dirty then t else SectionOf.initialized (changeCase o name) comment rb wb t) = t'
      at hindexed ⊢
    have hkey : changeCase o t'.getName = changeCase o name := by
      subst htnew
      split
      · exact ht
      · exact hk
    have hcontainer : t'.container = t.container := by
      subst htnew
      split <;> rfl
    have hsub : ∀ x ∈ (s.eraseSection id).container, x ∈ s.container := fun x hx => (Slots.mem_erase.mp hx).1
    have hut : Everywhere (Unique o) t' :=
      SectionOf.everywhere_congr (h.unique.inside id t hmem)
        ((h.unique.inside id t hmem).here.of_subset fun x hx => hcontainer ▸ hx) hcontainer
    refine ⟨⟨hindexed, .intro ?_ ?_⟩, fun p e => ?_, hlast _ t' hkey⟩
    · refine (h.unique.here.of_subset hsub).push_section fun i u hu hkeyu => ?_
      rw [hkey, ← ht] at hkeyu
      exact (Slots.mem_erase.mp hu).2 (h.unique.here.sections i id u t (hsub _ hu) hmem hkeyu)
    · exact (h.unique.inside.erase id).push_section (unique_copySection hut)
    · have hothers : Entry o p e (s.eraseSection id) ↔ Others o p e [id] s.container := entryIn_erase
      have hsplit : Entry o p e s ↔ EntryOf o p e (.section t) ∨ Others o p e [id] s.container :=
        entryIn_iff_others h.indexed.here.distinct hmem
      have hof : EntryOf o p e (.section t') ↔ EntryOf o p e (.section t) := by
        simp only [entryOf_section, hkey, ht, Entry, hcontainer]
      rw [entry_pushSection, hothers, hsplit, hof]
      exact or_comm

lemma regular_replace {t t' : IniSection} (h : Regular o s) (ht : (id, Element.section t) ∈ s.container)
    (ht' : Regular o t') (hname : t'.name = t.name) : Regular o (s.replace id (.section t')) := by
  have hkey : changeCase o t'.getName = changeCase o t.getName := by
    rw [IniBase.getName, IniBase.getName, hname]
  have hmem : ∀ {i x}, (i, x) ∈ (s.replace id (.section t')).container →
      ((i, x) ∈ s.container ∧ i ≠ id) ∨ (i, x) = (id, .section t') := Slots.mem_replace
  refine ⟨SectionOf.everywhere_replaceSection h.indexed (Slots.find_of_mem h.indexed.here.distinct ht)
    ht'.indexed hkey, .intro ⟨fun i j u u' hu hu' huu => ?_, fun i j d e hd he hde => ?_⟩
    (h.unique.inside.replace_section ht'.unique)⟩
  · rcases hmem hu with ⟨hu, -⟩ | heq
    · rcases hmem hu' with ⟨hu', -⟩ | heq'
      · exact h.unique.here.sections i j u u' hu hu' huu
      · cases heq'
        exact h.unique.here.sections _ _ u t hu ht (huu.trans hkey)
    · cases heq
      rcases hmem hu' with ⟨hu', -⟩ | heq'
      · exact h.unique.here.sections _ _ t u' ht hu' (hkey.symm.trans huu)
      · cases heq'
        rfl
  · rcases hmem hd with ⟨hd, -⟩ | heq
    · rcases hmem he with ⟨he, -⟩ | heq
      · exact h.unique.here.values i j d e hd he hde
      · cases heq
    · cases heq

/-- What parsing does to the section at the end it does to the keys below its name. -/
lemma loaded_onLast {t t' : IniSection} {keys : List (List Text)} (h : Regular o s)
    (ht : (id, Element.section t) ∈ s.container) (hname : t'.name = t.name)
    (hload : Loaded o params keys t t') :
    Loaded o params (keys.map (changeCase o t.getName :: ·)) s (s.replace id (.section t')) := by
  have hkey : changeCase o t'.getName = changeCase o t.getName := by
    rw [IniBase.getName, IniBase.getName, hname]
  have hnew : ∀ {p e}, Entry o p e (s.replace id (.section t')) ↔
      EntryOf o p e (.section t') ∨ Others o p e [id] s.container := entryIn_replace ht
  have hold : ∀ {p e}, Entry o p e s ↔ EntryOf o p e (.section t) ∨ Others o p e [id] s.container :=
    entryIn_iff_others h.indexed.here.distinct ht
  refine ⟨fun p hp e => ?_, fun p e hd he => ?_, fun p hp => ?_, fun p e he => ?_⟩
  · rw [hnew, hold, entryOf_section, entryOf_section, hkey]
    refine or_congr (exists_congr fun p' => and_congr_right fun heq => ?_) Iff.rfl
    refine hload.keep p' (fun hp' => hp ?_) e
    exact List.mem_map.mpr ⟨p', hp', heq.symm⟩
  · rcases hold.mp he with hof | hin
    · obtain ⟨p', rfl, hin⟩ := entryOf_section.mp hof
      exact hnew.mpr (.inl (entryOf_section.mpr ⟨p', by rw [hkey], hload.dirty p' e hd hin⟩))
    · exact hnew.mpr (.inr hin)
  · obtain ⟨p', hp', rfl⟩ := List.mem_map.mp hp
    obtain ⟨e, he⟩ := hload.found p' hp'
    exact ⟨e, hnew.mpr (.inl (entryOf_section.mpr ⟨p', by rw [hkey], he⟩))⟩
  · rcases hnew.mp he with hof | hin
    · obtain ⟨p', rfl, hin⟩ := entryOf_section.mp hof
      rcases hload.origin p' e hin with hin | hprinted
      · exact .inl (hold.mpr (.inl (entryOf_section.mpr ⟨p', by rw [hkey], hin⟩)))
      · exact .inr hprinted
    · exact .inl (hold.mpr (.inr hin))

mutual

lemma loaded_item (hrepeat : o.repeat_names = false) : ∀ (item : Item) {s s' : IniSection}, item.Plain params →
    Regular o s → loadItem o item s = some s' →
    Regular o s' ∧ s'.name = s.name ∧ Loaded o params (itemKeys o item) s s'
  | .value key val comment rb, s, s', hplain, h, hs' => by
    rw [loadItem] at hs'
    have hload := loaded_initValue h hrepeat hplain.1 hplain.2 hs'
    exact ⟨hload.1, SectionOf.name_initValue hs', hload.2⟩
  | .section name comment rb wb items, s, s', hplain, h, hs' => by
    rw [loadItem] at hs'
    obtain ⟨u, hu, hs'⟩ := Option.bind_eq_some_iff.mp hs'
    obtain ⟨hreg, hsame, id, t, hlast, hkey⟩ := loaded_initSection h hrepeat hplain.1 hu
    unfold SectionOf.onLast at hs'
    rw [hlast] at hs'
    obtain ⟨t', ht', rfl⟩ := Option.map_eq_some_iff.mp hs'
    have hmem : (id, Element.section t) ∈ u.container := List.mem_of_getLast? hlast
    have hregt : Regular o t := ⟨hreg.indexed.inside id t hmem, hreg.unique.inside id t hmem⟩
    obtain ⟨hregt', hname, hload⟩ := loaded_items hrepeat items hplain.2 hregt ht'
    have hnameu : u.name = s.name := SectionOf.name_initSection hu
    refine ⟨regular_replace hreg hmem hregt' hname, hnameu, ?_⟩
    have htree := (Loaded.of_same hsame).trans (loaded_onLast hreg hmem hname hload)
    rw [itemKeys, ← hkey]
    exact htree
  | .endComment c, s, s', hplain, h, hs' => by
    rw [loadItem] at hs'
    cases hs'
    have hcontainer : (s.setEndComment c).container = s.container := by
      unfold SectionOf.setEndComment
      split <;> rfl
    refine ⟨⟨SectionOf.everywhere_setEndComment h.indexed, ?_⟩, SectionOf.name_setEndComment, ?_⟩
    · exact SectionOf.everywhere_congr h.unique (h.unique.here.of_subset fun x hx => hcontainer ▸ hx) hcontainer
    · exact .of_same fun p e => entry_congr hcontainer

lemma loaded_items (hrepeat : o.repeat_names = false) : ∀ (items : List Item) {s s' : IniSection}, 
    AllPlain params items → Regular o s → loadItems o items s = some s' →
    Regular o s' ∧ s'.name = s.name ∧ Loaded o params (keysOf o items) s s'
  | [], s, s', hplain, h, hs' => by
    rw [loadItems] at hs'
    cases hs'
    exact ⟨h, rfl, .of_same fun _ _ => Iff.rfl⟩
  | item :: items, s, s', hplain, h, hs' => by
    rw [loadItems] at hs'
    obtain ⟨u, hu, hs'⟩ := Option.bind_eq_some_iff.mp hs'
    obtain ⟨hreg, hname, hload⟩ := loaded_item hrepeat item hplain.1 h hu
    obtain ⟨hreg', hname', hload'⟩ := loaded_items hrepeat items hplain.2 hreg hs'
    exact ⟨hreg', hname'.trans hname, hload.trans hload'⟩

end

end

/-! ### The record of what was written and deleted -/

inductive Fate where
  | written (v : Text)
  | deleted

abbrev Ledger := List Text → Option Fate

/-- The entry under a key, the first if there are several. -/
def entryAt (o : Options) : List Text → IniSection → Option IniEntry
  | [], _ => none
  | c :: p, s =>
    s.container.findSome? fun x =>
      match x.2 with
      | .value e => if p = [] ∧ changeCase o e.getName = c then some e else none
      | .section t => if changeCase o t.getName = c then entryAt o p t else none

/-- The last operation on a key decides what becomes of it. A whole section that could not be written is
not recorded. -/
def record (o : Options) (op : Op) (r : Outcome) (ledger : Ledger) : Ledger := fun p =>
  match effect o p op with
  | .writes text => some (.written text)
  | .deletes => some .deleted
  | .rewrites => if r.ok then (entryAt o p r.tree).map fun e => .written e.val else none
  | .comments => ledger p
  | .keeps => ledger p

/-- Operations since the file was read or written, from a tree, with their record. -/
inductive Session (o : Options) (s₀ : IniSection) : IniSection → Ledger → Prop where
  | start : Session o s₀ s₀ fun _ => none
  | step {s : IniSection} {ledger : Ledger} {r : Outcome} (op : Op) (h : Session o s₀ s ledger)
    (hnames : Names o s op) (hunique : Everywhere (Unique o) s) (hr : perform o s op = some r) :
    Session o s₀ r.tree (record o op r ledger)

section

variable {o : Options} {s s₀ : IniSection} {ledger : Ledger}

lemma entry_of_entryAt {p : List Text} {e : IniEntry} (h : entryAt o p s = some e) : Entry o p e s := by
  induction p generalizing s with
  | nil => cases h
  | cons c p ih =>
    rw [entryAt] at h
    obtain ⟨⟨i, x⟩, hx, heq⟩ := List.exists_of_findSome?_eq_some h
    cases x with
    | value e' =>
      dsimp only at heq
      split at heq
      next hc =>
        cases heq
        exact ⟨_, hx, hc.1, hc.2.symm, rfl⟩
      next => cases heq
    | «section» t =>
      dsimp only at heq
      split at heq
      next hc => exact ⟨_, hx, hc.symm, ih heq⟩
      next => cases heq

lemma step_of_perform {op : Op} {r : Outcome} (hr : perform o s op = some r) : step o s op = some r.tree := by
  cases op with
  | read =>
    cases hr
    rfl
  | write p v rewrite =>
    rw [perform] at hr
    rw [step, hr]
    rfl
  | delete p =>
    rw [perform] at hr
    rw [step, hr]
    rfl
  | _ => cases hr

lemma indexed_of_session (h₀ : Everywhere (Indexed o) s₀) (h : Session o s₀ s ledger) :
    Everywhere (Indexed o) s := by
  induction h with
  | start => exact h₀
  | step op h hnames hunique hr ih => exact everywhere_step op ih hnames (step_of_perform hr)

/-- The tree has what was written, dirty, and has nothing that was deleted. -/
structure Recorded (o : Options) (s : IniSection) (ledger : Ledger) : Prop where
  written : ∀ p v, ledger p = some (.written v) → ∃ e, Entry o p e s ∧ e.dirty = true ∧ e.val = v
  deleted : ∀ p, ledger p = some .deleted → ∀ e, ¬ Entry o p e s

lemma recorded_step {op : Op} {r : Outcome} (h : Recorded o s ledger) (hindexed : Everywhere (Indexed o) s)
    (hunique : Everywhere (Unique o) s) (hrepeat : o.repeat_names = false) (hnames : Names o s op)
    (hr : perform o s op = some r) : Recorded o r.tree (record o op r ledger) := by
  have hdistinct : Everywhere Distinct s := hindexed.mono fun _ hi => hi.distinct
  have hfollow := fun p => follows_perform p hindexed hunique hrepeat hnames hr
  constructor
  · intro p v hp
    have hfollow := hfollow p
    unfold record at hp
    cases heff : effect o p op with
    | writes text =>
      rw [heff] at hp hfollow
      cases hp
      obtain ⟨e', hdirty, hval, hall⟩ := hfollow
      exact ⟨e', (hall e').mpr rfl, hdirty, hval⟩
    | deletes =>
      rw [heff] at hp
      cases hp
    | rewrites =>
      rw [heff] at hp hfollow
      dsimp only at hp
      split at hp
      next hok =>
        obtain ⟨e, he, heq⟩ := Option.map_eq_some_iff.mp hp
        cases heq
        have hentry := entry_of_entryAt he
        exact ⟨e, hentry, hfollow hok e hentry, rfl⟩
      next => cases hp
    | comments =>
      rw [heff] at hp hfollow
      obtain ⟨e, he, hdirty, hval⟩ := h.written p v hp
      rcases hfollow with hsame | ⟨e', hdirty', ⟨e₀, he₀, hval'⟩, hall⟩
      · exact ⟨e, (hsame e).mpr he, hdirty, hval⟩
      · have heq := entry_unique hdistinct hunique he he₀
        exact ⟨e', (hall e').mpr rfl, hdirty', by rw [hval', ← heq, hval]⟩
    | keeps =>
      rw [heff] at hp hfollow
      obtain ⟨e, he, hrest⟩ := h.written p v hp
      exact ⟨e, (hfollow e).mpr he, hrest⟩
  · intro p hp
    have hfollow := hfollow p
    unfold record at hp
    cases heff : effect o p op with
    | writes text =>
      rw [heff] at hp
      cases hp
    | deletes =>
      rw [heff] at hfollow
      exact hfollow
    | rewrites =>
      rw [heff] at hp
      dsimp only at hp
      split at hp
      · obtain ⟨e, -, heq⟩ := Option.map_eq_some_iff.mp hp
        cases heq
      · cases hp
    | comments =>
      rw [heff] at hp hfollow
      have hnone := h.deleted p hp
      rcases hfollow with hsame | ⟨e', -, ⟨e₀, he₀, -⟩, -⟩
      · exact fun e he => hnone e ((hsame e).mp he)
      · exact absurd he₀ (hnone e₀)
    | keeps =>
      rw [heff] at hp hfollow
      exact fun e he => h.deleted p hp e ((hfollow e).mp he)

lemma recorded_of_session (h₀ : Everywhere (Indexed o) s₀) (hrepeat : o.repeat_names = false)
    (h : Session o s₀ s ledger) : Recorded o s ledger := by
  induction h with
  | start =>
    refine ⟨fun _ _ hp => ?_, fun _ hp => ?_⟩
    · cases hp
    · cases hp
  | step op h hnames hunique hr ih =>
    exact recorded_step ih (indexed_of_session h₀ h) hunique hrepeat hnames hr

/-- What was written is printed with its value and no other, and what was deleted is not printed. -/
def Kept (o : Options) (params : Nat) (ledger : Ledger) (s : IniSection) : Prop :=
  (∀ p v, ledger p = some (.written v) → ∀ w, (p, w) ∈ emitted o params s ↔ w = v) ∧
    ∀ p, ledger p = some .deleted → ∀ w, (p, w) ∉ emitted o params s

/-- What was written is a C string of a type that has a rule, and the file has nothing that was deleted. -/
def Mergeable (o : Options) (params : Nat) (items : List Item) (ledger : Ledger) (s : IniSection) : Prop :=
  (∀ p v, ledger p = some (.written v) → 0 ∉ v ∧ ∀ e, Entry o p e s → Printed params e) ∧
    ∀ p, ledger p = some .deleted → p ∉ keysOf o items

end

/-! ### A key that comes back -/

def parseKey : Op := .initValue [] (ascii "k") (ascii "1") [] 0

/-- The tree of a file with the value `1` of the key `k`. -/
def treeKey : IniSection :=
  { IniSection.new with
    container := [(1, .value ⟨⟨ascii "k", [], 0, false⟩, ascii "1"⟩)]
    ivalues := [(ascii "k", 1)] }

lemma reached_treeKey : Reached .plain treeKey :=
  .step parseKey .new (show (0 : UInt8) ∉ ascii "k" by decide) rfl

lemma unique_treeKey : Everywhere (Unique .plain) treeKey := by
  refine .intro ⟨fun i j t u ht => ?_, fun i j d e hd he _ => ?_⟩ fun i t ht => ?_
  · exact absurd (List.mem_singleton.mp ht) (by simp)
  · rw [(Prod.mk.inj (List.mem_singleton.mp hd)).1, (Prod.mk.inj (List.mem_singleton.mp he)).1]
  · exact absurd (List.mem_singleton.mp ht) (by simp)

def writeKey : Op := .write [ascii "v", ascii "k"] (.string (ascii "x")) false

def deleteKey : Op := .delete [ascii "v", ascii "k"]

/-- The other program has changed the value and added another one. -/
def changedFile : List Item := [.value (ascii "k") (ascii "2") [] 0, .value (ascii "j") (ascii "3") [] 0]

def treeWritten : IniSection :=
  { treeKey with dirty := true, container := [(1, .value ⟨⟨ascii "k", [], 0, true⟩, ascii "x"⟩)] }

end YastCore.Ini
