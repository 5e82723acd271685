import YastCore.Ini.Reading
import YastCore.Ini.Whole

/-!
# Listing names

`IniSection::Dir` beside `IniSection::Read`. Both go down by the multimaps of the sections, and in every tree
that is reached the names that one lists are the names that the other answers to.
-/

namespace YastCore.Ini

open Lines

namespace SectionOf

/-! ### Reading -/

/-- A property of a section as it is read; what is not a comment or a type is the rewrite rule. -/
def prop (what : SectionProp) (s : IniSection) : YCPValue :=
  match what with
  | .comment => .string (cut s.comment)
  | .type => .integer s.read_by.toInt64
  | _ => .integer s.rewrite_by.toInt64

/-- No result is a crash; inside, none is an error. -/
def getSectionProp (o : Options) (what : SectionProp) : List Text → IniSection → Option (Option YCPValue)
  | [], _ => some none
  | [component], s =>
    match (Slots.equalRange (changeCase o component) s.isections).mapM s.sectionAt with
    | none => none
    | some found =>
      let results := found.map (prop what)
      if o.repeat_names then some (some (.list results)) else some results.getLast?
  | component :: path, s =>
    match (Slots.equalRange (changeCase o component) s.isections).getLast? with
    | none => some none
    | some id =>
      match s.sectionAt id with
      | none => none
      | some t => getSectionProp o what path t

def getValueFlat (o : Options) (p : List Text) (s : IniSection) : Option (Option YCPValue) :=
  match p with
  | [] => some none
  | c :: path => s.getMyValue o c (if path.head? = some (ascii "comment") then .comment else .value)

/-- `IniSection::Read` -/
def read (o : Options) (rewrite : Bool) (p : List Text) (s : IniSection) : Option (Option YCPValue) :=
  if o.flat then s.getValueFlat o p
  else
    match p with
    | [] => some none
    | c :: path =>
      if c = ascii "all" then some ((getAll o path s).map .map)
      else if path = [] then some none
      else if c ∈ [ascii "v", ascii "value"] then getValue o .value path s
      else if c ∈ [ascii "vc", ascii "value_comment", ascii "valuecomment"] then getValue o .comment path s
      else if c ∈ [ascii "vt", ascii "value_type", ascii "valuetype"] then getValue o .type path s
      else if c ∈ [ascii "sc", ascii "section_comment", ascii "sectioncomment"] then
        getSectionProp o .comment path s
      else if c ∈ [ascii "st", ascii "section_type", ascii "sectiontype"] then
        getSectionProp o (if rewrite then .rewrite else .type) path s
      else some none

/-! ### Listing -/

/-- `myDir`, for sections or for values. -/
def myDir (sections : Bool) (s : IniSection) : List Text :=
  s.container.filterMap fun p =>
    match p.2 with
    | .section t => if sections then some t.getName else none
    | .value e => if sections then none else some e.getName

def dirValueFlat (p : List Text) (s : IniSection) : List Text :=
  if p.length ≠ 0 then [] else s.myDir false

/-- No result is a crash; inside, none is an error. -/
def dirHelper (o : Options) (sections : Bool) : List Text → IniSection → Option (Option (List Text))
  | [], s => some (some (s.myDir sections))
  | component :: path, s =>
    match (Slots.equalRange (changeCase o component) s.isections).getLast? with
    | none => some none
    | some id =>
      match s.sectionAt id with
      | none => none
      | some t => dirHelper o sections path t

/-- `IniSection::Dir` -/
def dir (o : Options) (p : List Text) (s : IniSection) : Option (Option (List Text)) :=
  if o.flat then some (some (s.dirValueFlat p))
  else
    match p with
    | [] => some (some [ascii "section", ascii "value"])
    | c :: path =>
      if c ∈ [ascii "v", ascii "value"] then dirHelper o false path s
      else if c ∈ [ascii "s", ascii "section"] then dirHelper o true path s
      else some none

/-! ### The section that is listed -/

/-- The section that `dirHelper` arrives at. -/
def walk (o : Options) : List Text → IniSection → Option (Option IniSection)
  | [], s => some (some s)
  | component :: path, s =>
    match (Slots.equalRange (changeCase o component) s.isections).getLast? with
    | none => some none
    | some id =>
      match s.sectionAt id with
      | none => none
      | some t => walk o path t

variable {o : Options} {s t : IniSection} {sections : Bool} {what : ValueProp} {path : List Text} {component : Text}

lemma dirHelper_eq (path : List Text) (s : IniSection) :
    dirHelper o sections path s = (walk o path s).map fun t => t.map (myDir sections) := by
  induction path generalizing s with
  | nil => rfl
  | cons component path ih =>
    rw [dirHelper, walk]
    split
    · rfl
    · split
      · rfl
      · exact ih _

/-- The index lists a key exactly when the container has a name that folds to it. -/
lemma equalRange_ne_nil_iff {key : Element → Option Text} {index : List (Text × Nat)}
    {container : List (Nat × Element)} {k : Text} (h : Slots.Indexes key index container) :
    Slots.equalRange k index ≠ [] ↔ ∃ p ∈ container, key p.2 = some k := by
  constructor
  · intro hne
    obtain ⟨id, hid⟩ := List.exists_mem_of_ne_nil _ hne
    obtain ⟨x, hx, hkey⟩ := h.mem (Slots.mem_equalRange.mp hid)
    exact ⟨(id, x), hx, hkey⟩
  · rintro ⟨p, hp, hkey⟩
    have hmem : (k, p.1) ∈ Slots.entries key container :=
      List.mem_filterMap.mpr ⟨p, hp, by rw [hkey, Option.map_some]⟩
    exact List.ne_nil_of_mem (Slots.mem_equalRange.mpr (h.mem_iff.mpr hmem))

/-- A name among those that are listed folds to a key. -/
def Lists (o : Options) (names : List Text) (component : Text) : Prop :=
  ∃ n ∈ names, changeCase o n = changeCase o component

lemma section_lists_iff (h : Indexed o s) :
    Slots.equalRange (changeCase o component) s.isections ≠ [] ↔ Lists o (s.myDir true) component := by
  rw [equalRange_ne_nil_iff h.sections]
  constructor
  · rintro ⟨⟨id, x⟩, hx, hkey⟩
    cases x with
    | value e => cases hkey
    | «section» t => exact ⟨t.getName, List.mem_filterMap.mpr ⟨_, hx, rfl⟩, Option.some.inj hkey⟩
  · rintro ⟨n, hn, hkey⟩
    obtain ⟨⟨id, x⟩, hx, hname⟩ := List.mem_filterMap.mp hn
    cases x with
    | value e => cases hname
    | «section» t =>
      cases hname
      exact ⟨_, hx, congrArg some hkey⟩

lemma value_lists_iff (h : Indexed o s) :
    Slots.equalRange (changeCase o component) s.ivalues ≠ [] ↔ Lists o (s.myDir false) component := by
  rw [equalRange_ne_nil_iff h.values]
  constructor
  · rintro ⟨⟨id, x⟩, hx, hkey⟩
    cases x with
    | value e => exact ⟨e.getName, List.mem_filterMap.mpr ⟨_, hx, rfl⟩, Option.some.inj hkey⟩
    | «section» t => cases hkey
  · rintro ⟨n, hn, hkey⟩
    obtain ⟨⟨id, x⟩, hx, hname⟩ := List.mem_filterMap.mp hn
    cases x with
    | value e =>
      cases hname
      exact ⟨_, hx, congrArg some hkey⟩
    | «section» t => cases hname

/-- Going down ends in a section of the tree or finds nothing. -/
lemma spec_walk (path : List Text) (h : Everywhere (Indexed o) s) :
    ∃ r, walk o path s = some r ∧ ∀ t, r = some t → Everywhere (Indexed o) t := by
  induction path generalizing s with
  | nil =>
    refine ⟨some s, rfl, fun t ht => ?_⟩
    cases ht
    exact h
  | cons component path ih =>
    rw [walk]
    cases hid : (Slots.equalRange (changeCase o component) s.isections).getLast? with
    | none => exact ⟨none, rfl, fun t ht => by cases ht⟩
    | some id =>
      have hmem := mem_of_equalRange (List.mem_of_getLast? hid)
      obtain ⟨t, ht⟩ := sectionAt_of_mem' (linked_of_indexed h.here) hmem
      dsimp only
      rw [ht]
      exact ih (h.inside id t ((sectionAt_iff h.here.distinct).mp ht))

/-- One component more enters a section of that name. -/
lemma walk_concat (path : List Text) :
    walk o (path ++ [component]) s =
      match walk o path s with
      | none => none
      | some none => some none
      | some (some t) => walk o [component] t := by
  induction path generalizing s with
  | nil => rfl
  | cons d path ih =>
    rw [List.cons_append, walk, walk]
    split
    · rfl
    · split
      · rfl
      · exact ih

lemma walk_single (component : Text) (h : Everywhere (Indexed o) s) :
    (∃ t, walk o [component] s = some (some t)) ↔ Lists o (s.myDir true) component := by
  rw [← section_lists_iff h.here, walk]
  cases hid : (Slots.equalRange (changeCase o component) s.isections).getLast? with
  | none =>
    rw [List.getLast?_eq_none_iff.mp hid]
    simp
  | some id =>
    obtain ⟨t, ht⟩ := sectionAt_of_mem' (linked_of_indexed h.here) (mem_of_equalRange (List.mem_of_getLast? hid))
    dsimp only
    rw [ht]
    exact ⟨fun _ => List.ne_nil_of_mem (List.mem_of_getLast? hid), fun _ => ⟨t, rfl⟩⟩

/-! ### What a read finds -/

/-- Something was read; with repeated names, what is not there is read as the empty list. -/
def Found (r : Option (Option YCPValue)) : Prop := ∃ v, r = some (some v) ∧ v ≠ .list []

/-- The reading of the elements of one key, in either kind of index. -/
lemma found_range {α : Type} {get : Nat → Option α} (prop : α → YCPValue) (hprop : ∀ x, prop x ≠ .list [])
    {ids : List Nat} (h : ∀ id ∈ ids, ∃ x, get id = some x) :
    ∃ found, ids.mapM get = some found ∧
      let results := found.map prop
      let r := if o.repeat_names then some (some (YCPValue.list results)) else some results.getLast?
      (∃ v, r = some v) ∧ (Found r ↔ ids ≠ []) := by
  have hmap : ∃ found, ids.mapM get = some found ∧ (found = [] ↔ ids = []) := by
    induction ids with
    | nil => exact ⟨[], rfl, by simp⟩
    | cons id ids ih =>
      obtain ⟨x, hx⟩ := h id List.mem_cons_self
      obtain ⟨found, hfound, -⟩ := ih fun i hi => h i (List.mem_cons_of_mem id hi)
      refine ⟨x :: found, ?_, by simp⟩
      rw [List.mapM_cons, hx, hfound]
      rfl
  obtain ⟨found, hfound, hnil⟩ := hmap
  refine ⟨found, hfound, ?_, ?_⟩
  · split
    · exact ⟨_, rfl⟩
    · exact ⟨_, rfl⟩
  · rw [ne_eq, ← hnil]
    split
    · constructor
      · rintro ⟨v, hv, hne⟩ rfl
        cases hv
        exact hne rfl
      · intro hne
        refine ⟨_, rfl, fun heq => hne ?_⟩
        exact List.map_eq_nil_iff.mp (YCPValue.list.inj heq)
    · constructor
      · rintro ⟨v, hv, -⟩ rfl
        cases hv
      · intro hne
        cases hlast : (found.map prop).getLast? with
        | none => exact absurd (List.map_eq_nil_iff.mp (List.getLast?_eq_none_iff.mp hlast)) hne
        | some v =>
          obtain ⟨x, -, rfl⟩ := List.mem_map.mp (List.mem_of_getLast? hlast)
          exact ⟨_, rfl, hprop x⟩

/-- Reading a value of a section finds it exactly when it is listed. -/
lemma found_getMyValue (h : Indexed o s) :
    (∃ v, s.getMyValue o component what = some v) ∧
      (Found (s.getMyValue o component what) ↔ Lists o (s.myDir false) component) := by
  have hprop : ∀ e, IniEntry.prop what e ≠ .list [] := by
    intro e
    cases what <;> simp [IniEntry.prop]
  obtain ⟨found, hfound, hspec⟩ := found_range (o := o) (IniEntry.prop what) hprop fun id hid =>
    entryAt_of_mem (linked_of_indexed h) (mem_of_equalRange (k := changeCase o component) hid)
  rw [getMyValue, hfound, ← value_lists_iff h]
  exact hspec

lemma found_sectionProp (what : SectionProp) (component : Text) (h : Indexed o s) :
    (∃ v, getSectionProp o what [component] s = some v) ∧
      (Found (getSectionProp o what [component] s) ↔ Lists o (s.myDir true) component) := by
  have hprop : ∀ t, prop what t ≠ .list [] := by
    intro t
    cases what <;> simp [prop]
  obtain ⟨found, hfound, hspec⟩ := found_range (o := o) (prop what) hprop fun id hid =>
    sectionAt_of_mem' (linked_of_indexed h) (mem_of_equalRange (k := changeCase o component) hid)
  rw [getSectionProp, hfound, ← section_lists_iff h]
  exact hspec

/-! ### Down the tree -/

lemma getSectionProp_concat {what : SectionProp} (path : List Text) :
    getSectionProp o what (path ++ [component]) s =
      match walk o path s with
      | none => none
      | some none => some none
      | some (some t) => getSectionProp o what [component] t := by
  have hlast : [component] ≠ [] := List.cons_ne_nil _ _
  induction path generalizing s with
  | nil => rfl
  | cons d path ih =>
    rw [List.cons_append, walk]
    obtain ⟨c, rest, hrest⟩ := List.exists_cons_of_ne_nil (List.append_ne_nil_of_right_ne_nil path hlast)
    rw [hrest, getSectionProp, ← hrest]
    · split
      · rfl
      · split
        · rfl
        · exact ih
    · simp

/-- Values are looked for in the first section of a name, and listed in the last: the same one, when no two
sections on the way have one name. -/
lemma getValue_concat (path : List Text) (hone : OneSection o (path ++ [component]) s) :
    getValue o what (path ++ [component]) s =
      match walk o path s with
      | none => none
      | some none => some none
      | some (some t) => t.getMyValue o component what := by
  have hlast : [component] ≠ [] := List.cons_ne_nil _ _
  induction path generalizing s with
  | nil => rfl
  | cons d path ih =>
    rw [List.cons_append, walk]
    obtain ⟨c, rest, hrest⟩ := List.exists_cons_of_ne_nil (List.append_ne_nil_of_right_ne_nil path hlast)
    rw [List.cons_append, hrest, oneSection_cons] at hone
    rw [hrest, getValue_cons, ← hrest]
    cases hid : (Slots.equalRange (changeCase o d) s.isections).getLast? with
    | none =>
      rw [List.getLast?_eq_none_iff.mp hid]
      rfl
    | some id =>
      have hids := getLast_length hid hone.1
      rw [hids, List.head?_cons]
      dsimp only
      cases ht : s.sectionAt id with
      | none => rfl
      | some t =>
        have hone' := hone.2 id (by rw [hids]; exact List.mem_cons_self) t ht
        rw [← hrest] at hone'
        exact ih hone'

lemma getValue_returns (path : List Text) (h : Everywhere (Indexed o) s) : ∃ r, getValue o what path s = some r := by
  induction path generalizing s with
  | nil => exact ⟨none, rfl⟩
  | cons d path ih =>
    cases path with
    | nil => exact (found_getMyValue h.here).1
    | cons c path =>
      rw [getValue_cons]
      cases hid : (Slots.equalRange (changeCase o d) s.isections).head? with
      | none => exact ⟨none, rfl⟩
      | some id =>
        obtain ⟨t, ht⟩ := sectionAt_of_mem' (linked_of_indexed h.here) (mem_of_equalRange (List.mem_of_mem_head? hid))
        dsimp only
        rw [ht]
        exact ih (h.inside id t ((sectionAt_iff h.here.distinct).mp ht))

lemma found_getSectionProp {what : SectionProp} (path : List Text) (h : Everywhere (Indexed o) s) :
    (∃ r, getSectionProp o what (path ++ [component]) s = some r) ∧
      (Found (getSectionProp o what (path ++ [component]) s) ↔
        ∃ names, dirHelper o true path s = some (some names) ∧ Lists o names component) := by
  obtain ⟨r, hr, ht⟩ := spec_walk path h
  rw [getSectionProp_concat, dirHelper_eq, hr]
  cases r with
  | none =>
    refine ⟨⟨none, rfl⟩, ?_, ?_⟩
    · rintro ⟨v, hv, -⟩
      cases hv
    · rintro ⟨names, hnames, -⟩
      cases hnames
  | some t =>
    obtain ⟨hreturns, hfound⟩ := found_sectionProp what component (ht t rfl).here
    refine ⟨hreturns, hfound.trans ⟨fun hlists => ⟨_, rfl, hlists⟩, ?_⟩⟩
    rintro ⟨names, hnames, hlists⟩
    cases hnames
    exact hlists

lemma found_getValue (path : List Text) (h : Everywhere (Indexed o) s) (hone : OneSection o (path ++ [component]) s) :
    Found (getValue o what (path ++ [component]) s) ↔
      ∃ names, dirHelper o false path s = some (some names) ∧ Lists o names component := by
  obtain ⟨r, hr, ht⟩ := spec_walk path h
  rw [getValue_concat path hone, dirHelper_eq, hr]
  cases r with
  | none =>
    constructor
    · rintro ⟨v, hv, -⟩
      cases hv
    · rintro ⟨names, hnames, -⟩
      cases hnames
  | some t =>
    refine (found_getMyValue (ht t rfl).here).2.trans ⟨fun hlists => ⟨_, rfl, hlists⟩, ?_⟩
    rintro ⟨names, hnames, hlists⟩
    cases hnames
    exact hlists

/-- One component more is listed exactly when the component names a section that is listed. -/
lemma dirHelper_concat (path : List Text) (h : Everywhere (Indexed o) s) :
    (∃ names, dirHelper o sections (path ++ [component]) s = some (some names)) ↔
      ∃ names, dirHelper o true path s = some (some names) ∧ Lists o names component := by
  obtain ⟨r, hr, ht⟩ := spec_walk path h
  rw [dirHelper_eq, dirHelper_eq, walk_concat, hr]
  cases r with
  | none =>
    constructor
    · rintro ⟨names, hnames⟩
      cases hnames
    · rintro ⟨names, hnames, -⟩
      cases hnames
  | some t =>
    have hsingle := walk_single component (ht t rfl)
    constructor
    · rintro ⟨names, hnames⟩
      obtain ⟨u, hu, hmap⟩ := Option.map_eq_some_iff.mp hnames
      obtain ⟨u, rfl, -⟩ := Option.map_eq_some_iff.mp hmap
      exact ⟨_, rfl, hsingle.mp ⟨u, hu⟩⟩
    · rintro ⟨names, hnames, hlists⟩
      cases hnames
      obtain ⟨u, hu⟩ := hsingle.mpr hlists
      exact ⟨u.myDir sections, by dsimp only; rw [hu]; rfl⟩

/-! ### The words of the paths -/

/-- The words for the properties of values. -/
def valueWords : List Text :=
  [ascii "v", ascii "value"] ++ ([ascii "vc", ascii "value_comment", ascii "valuecomment"] ++
    [ascii "vt", ascii "value_type", ascii "valuetype"])

/-- The words for the properties of sections. -/
def sectionWords : List Text :=
  [ascii "sc", ascii "section_comment", ascii "sectioncomment"] ++
    [ascii "st", ascii "section_type", ascii "sectiontype"]

variable {word : Text}

lemma words_disjoint : ∀ w ∈ sectionWords, w ∉ valueWords := by decide

lemma all_notMem : ascii "all" ∉ valueWords ∧ ascii "all" ∉ sectionWords := by decide

/-- Each word reads one property of the values at the end of the path. -/
lemma read_valueWord (rewrite : Bool) (s : IniSection) (hflat : o.flat = false) (hword : word ∈ valueWords) :
    ∃ what, ∀ path, path ≠ [] → s.read o rewrite (word :: path) = getValue o what path s := by
  have hall : word ≠ ascii "all" := by
    rintro rfl
    exact all_notMem.1 hword
  by_cases hv : word ∈ [ascii "v", ascii "value"]
  · refine ⟨.value, fun path hpath => ?_⟩
    rw [read, hflat, if_neg Bool.false_ne_true, if_neg hall, if_neg hpath, if_pos hv]
  have hword := (List.mem_append.mp hword).resolve_left hv
  by_cases hc : word ∈ [ascii "vc", ascii "value_comment", ascii "valuecomment"]
  · refine ⟨.comment, fun path hpath => ?_⟩
    rw [read, hflat, if_neg Bool.false_ne_true, if_neg hall, if_neg hpath, if_neg hv, if_pos hc]
  · have ht := (List.mem_append.mp hword).resolve_left hc
    refine ⟨.type, fun path hpath => ?_⟩
    rw [read, hflat, if_neg Bool.false_ne_true, if_neg hall, if_neg hpath, if_neg hv, if_neg hc, if_pos ht]

lemma read_sectionWord (rewrite : Bool) (s : IniSection) (hflat : o.flat = false) (hword : word ∈ sectionWords) :
    ∃ what, ∀ path, path ≠ [] → s.read o rewrite (word :: path) = getSectionProp o what path s := by
  have hall : word ≠ ascii "all" := by
    rintro rfl
    exact all_notMem.2 hword
  have hvalue := words_disjoint word hword
  have hv : word ∉ [ascii "v", ascii "value"] := fun h => hvalue (List.mem_append_left _ h)
  have hc : word ∉ [ascii "vc", ascii "value_comment", ascii "valuecomment"] := fun h =>
    hvalue (List.mem_append_right _ (List.mem_append_left _ h))
  have ht : word ∉ [ascii "vt", ascii "value_type", ascii "valuetype"] := fun h =>
    hvalue (List.mem_append_right _ (List.mem_append_right _ h))
  by_cases hsc : word ∈ [ascii "sc", ascii "section_comment", ascii "sectioncomment"]
  · refine ⟨.comment, fun path hpath => ?_⟩
    rw [read, hflat, if_neg Bool.false_ne_true, if_neg hall, if_neg hpath, if_neg hv, if_neg hc, if_neg ht,
      if_pos hsc]
  · have hst := (List.mem_append.mp hword).resolve_left hsc
    refine ⟨if rewrite then .rewrite else .type, fun path hpath => ?_⟩
    rw [read, hflat, if_neg Bool.false_ne_true, if_neg hall, if_neg hpath, if_neg hv, if_neg hc, if_neg ht,
      if_neg hsc, if_pos hst]

lemma dir_value (hflat : o.flat = false) (path : List Text) :
    s.dir o (ascii "value" :: path) = dirHelper o false path s := by
  rw [dir, hflat, if_neg Bool.false_ne_true, if_pos (by decide)]

lemma dir_section (hflat : o.flat = false) (path : List Text) :
    s.dir o (ascii "section" :: path) = dirHelper o true path s := by
  rw [dir, hflat, if_neg Bool.false_ne_true, if_neg (by decide), if_pos (by decide)]

end SectionOf

/-- The names under a path, for one of the words that `Dir (.)` answers, have one that folds to a component. -/
def Listed (o : Options) (s : IniSection) (kind : String) (path : List Text) (component : Text) : Prop :=
  ∃ names, s.dir o (ascii kind :: path) = some (some names) ∧ SectionOf.Lists o names component

open SectionOf in
/-- In every tree that is reached, what is listed is what can be read. Sections are entered exactly when they are
listed, and so are their properties; values are found exactly when they are listed, as long as no two sections
on the way have one name; in a flat file the values are those of the only section. -/
theorem read_iff_listed {o : Options} {s : IniSection} (h : Reached o s) (path : List Text) (component : Text)
    (rewrite : Bool) :
    (o.flat = false →
      (∀ kind ∈ ["value", "section"], (∃ names, s.dir o (ascii kind :: path ++ [component]) = some (some names)) ↔
        Listed o s "section" path component) ∧
      (∀ word ∈ sectionWords, Found (s.read o rewrite (word :: path ++ [component])) ↔
        Listed o s "section" path component) ∧
      (∀ word ∈ valueWords, (∃ r, s.read o rewrite (word :: path ++ [component]) = some r) ∧
        (OneSection o (path ++ [component]) s →
          (Found (s.read o rewrite (word :: path ++ [component])) ↔ Listed o s "value" path component)))) ∧
    (o.flat = true →
      (Found (s.read o rewrite (component :: path)) ↔
        ∃ names, s.dir o [] = some (some names) ∧ Lists o names component)) := by
  have hindexed := everywhere_of_reached h
  have hne : path ++ [component] ≠ [] := List.append_ne_nil_of_right_ne_nil path (List.cons_ne_nil _ _)
  refine ⟨fun hflat => ⟨fun kind hkind => ?_, fun word hword => ?_, fun word hword => ?_⟩, fun hflat => ?_⟩
  · rw [Listed, dir_section hflat, List.cons_append]
    rcases List.mem_cons.mp hkind with rfl | hkind
    · rw [dir_value hflat]
      exact dirHelper_concat path hindexed
    · rw [List.mem_singleton.mp hkind, dir_section hflat]
      exact dirHelper_concat path hindexed
  · obtain ⟨what, hread⟩ := read_sectionWord rewrite s hflat hword
    rw [Listed, dir_section hflat, List.cons_append, hread _ hne]
    exact (found_getSectionProp path hindexed).2
  · obtain ⟨what, hread⟩ := read_valueWord rewrite s hflat hword
    rw [Listed, dir_value hflat, List.cons_append, hread _ hne]
    exact ⟨getValue_returns _ hindexed, found_getValue path hindexed⟩
  · have hread : s.read o rewrite (component :: path) = s.getValueFlat o (component :: path) := by
      rw [SectionOf.read, hflat, if_pos rfl]
    have hdir : s.dir o [] = some (some (s.myDir false)) := by
      rw [SectionOf.dir, hflat, if_pos rfl]
      rfl
    rw [hread, hdir, SectionOf.getValueFlat]
    refine (found_getMyValue hindexed.here).2.trans ⟨fun hlists => ⟨_, rfl, hlists⟩, ?_⟩
    rintro ⟨names, hnames, hlists⟩
    cases hnames
    exact hlists

end YastCore.Ini
