import YastCore.Ini.Links
import YastCore.Ini.Scan

/-!
# Names as they are and names with their case changed

`initSection` and `delSection` change the case of a name, `getSection` and `getSubSectionRewriteBy` do not, and
the end of a section is compared with the names of the open sections as it stands on the line.
-/

namespace YastCore.Ini

open Lines

namespace SectionOf

/-- The last section under a name that is a `const char*`. -/
def lastNamed (s : IniSection) (name : Text) : Option Nat := (Slots.equalRange (cut name) s.isections).getLast?

/-- `getSection`; no result stands for the abort. -/
def getSection (s : IniSection) (n : Text) : Option IniSection := (s.lastNamed n).bind s.sectionAt

def getSubSectionRewriteBy (s : IniSection) (name : Text) : Option Int32 :=
  match s.lastNamed name with
  | none => some (-1)
  | some id => (s.sectionAt id).map SectionOf.rewrite_by

/-- The section that was created last is the one that the name leads to. -/
def FindsCreated (s : IniSection) (name : Text) : Prop :=
  ∃ id, s.container.getLast?.map Prod.fst = some id ∧ s.lastNamed name = some id

/-- The section that the name leads to is deleted; none is deleted where it leads to none. -/
def FindsDeleted (o : Options) (s : IniSection) (name : Text) : Prop :=
  ∃ r, delSection o [name] s = some r ∧
    match s.lastNamed name with
    | none => r.tree.container = s.container
    | some id => id ∉ r.tree.container.map Prod.fst

end SectionOf

/-- A new file in `parse`: the tree with a section for the file, and the section that the file is read into. -/
def newFile (o : Options) (inifile : IniSection) (section_name : Text) (section_index : Int32) :
    Option (IniSection × Nat) :=
  (inifile.initSection o section_name [] (-1) section_index).bind fun inifile =>
    (inifile.lastNamed section_name).map fun id => (inifile, id)

/-- The file is read into the section that was created for it. -/
def OwnSection (o : Options) (inifile : IniSection) (section_name : Text) (section_index : Int32) : Prop :=
  ∃ s x, newFile o inifile section_name section_index = some (s, x) ∧ s.container.getLast?.map Prod.fst = some x

namespace Helper

/-- The name of an open section. -/
def nameAt (h : Helper) (place : List Nat) : Option Text := (sectionAt place h.ini).map fun s => s.getName

/-- The number of sections inside of the innermost open one whose name is this after `changeCase`. -/
def innermostNamed (o : Options) (h : Helper) (n : Text) : Option Nat :=
  h.open_sections.findIdx? fun place => (h.nameAt place).any fun name => changeCase o name == changeCase o n

/-- The innermost open section that a rule began. -/
def innermostRead (h : Helper) (i : Nat) : Option Nat :=
  h.open_sections.findIdx? fun place => (sectionAt place h.ini).any fun s => s.read_by == Int32.ofNat i

/-- The open section with this number has the name literally. Where no open section has it, it is the innermost that
the rule began, or the innermost of all where the rule began none. -/
def HasLiterally (h : Helper) (n : Text) (i k : Nat) : Prop :=
  if n ≠ [] ∧ ∃ place ∈ h.open_sections, h.nameAt place = some n then
    h.open_sections[k]?.bind h.nameAt = some n
  else h.innermostRead i = some k ∨ h.innermostRead i = none ∧ k = 0

end Helper

/-! ### Sections that are created -/

namespace SectionOf

section

variable {o : Options} {s s' t : IniSection} {k n name : Text} {id : Nat}

lemma lastNamed_pushSection (h : Linked s) :
    (s.pushSection o k t).lastNamed name = some (Slots.fresh s.container) ↔ k = cut name := by
  rw [lastNamed, pushSection, Slots.equalRange_append]
  split
  · next heq =>
    rw [List.getLast?_append, List.getLast?_singleton, Option.some_or]
    exact iff_of_true rfl heq
  · next hne =>
    rw [List.append_nil]
    refine iff_of_false (fun hlast => ?_) hne
    -- the identity is new, so no old entry of the index has it
    have hmem := Slots.mem_equalRange.mp (List.mem_of_getLast? hlast)
    exact Slots.fresh_notMem _ (ids_of_sections h (List.mem_map.mpr ⟨_, hmem, rfl⟩))

lemma findsCreated_pushSection (h : Linked s) : (s.pushSection o k t).FindsCreated name ↔ k = cut name := by
  rw [← lastNamed_pushSection h, FindsCreated]
  have hlast : (s.pushSection o k t).container.getLast?.map Prod.fst = some (Slots.fresh s.container) := by
    rw [pushSection, Slots.push, List.getLast?_append, List.getLast?_singleton, Option.some_or]
    rfl
  constructor
  · rintro ⟨x, hx, hname⟩
    rw [hlast] at hx
    obtain rfl := Option.some.inj hx
    exact hname
  · intro hname
    exact ⟨_, hlast, hname⟩

/-- A section is created in every tree without stray iterators, and found if its name is as it was given. -/
lemma findsCreated_initSection (h : Everywhere Linked s) (name comment : Text) (rb wb : Int32) :
    ∃ s', s.initSection o name comment rb wb = some s' ∧
      (s'.FindsCreated name ↔ changeCase o name = cut name) := by
  unfold initSection
  dsimp only
  split
  · exact ⟨_, rfl, findsCreated_pushSection h.here⟩
  next id hid =>
    have hrange : id ∈ Slots.equalRange (changeCase o name) s.isections := by
      split at hid
      · cases hid
      · exact List.mem_of_mem_head? hid
    obtain ⟨t, ht⟩ := h.here.sections _ (Slots.mem_equalRange.mp hrange)
    rw [Slots.find_of_mem h.here.distinct ht]
    have herase := everywhere_linked_eraseSection h (sectionAt_of_linked h.here hrange)
    exact ⟨_, rfl, findsCreated_pushSection herase.here⟩

lemma ownSection_iff (h : Everywhere Linked s) (section_name : Text) (section_index : Int32) :
    OwnSection o s section_name section_index ↔ changeCase o section_name = cut section_name := by
  obtain ⟨s', hs', hfinds⟩ := findsCreated_initSection (o := o) h section_name [] (-1) section_index
  rw [← hfinds, OwnSection, newFile, hs', Option.bind_some]
  constructor
  · rintro ⟨u, id, hfile, hcreated⟩
    obtain ⟨found, hfound, heq⟩ := Option.map_eq_some_iff.mp hfile
    obtain ⟨rfl, rfl⟩ := Prod.mk.inj heq
    exact ⟨found, hcreated, hfound⟩
  · rintro ⟨id, hcreated, hfound⟩
    exact ⟨s', id, by rw [hfound, Option.map_some], hcreated⟩

/-! ### Sections that are deleted -/

lemma mem_delSections (ids : List Nat) (s : IniSection) (x : Nat × Element) :
    x ∈ (ids.foldl delSection1 s).container ↔ x ∈ s.container ∧ x.1 ∉ ids := by
  induction ids generalizing s with
  | nil => simp
  | cons id ids ih =>
    rw [List.foldl_cons, ih, List.mem_cons, not_or, ← and_assoc]
    refine and_congr_left fun _ => ?_
    exact Slots.mem_erase

/-- The lookup and the deletion agree if they are about one name, or if there is nothing to find and to delete. -/
lemma findsDeleted_iff (h : Linked s) (name : Text) :
    FindsDeleted o s name ↔ changeCase o name = cut name ∨
      Slots.equalRange (cut name) s.isections = [] ∧ Slots.equalRange (changeCase o name) s.isections = [] := by
  have hthere : ∀ {key : Text} {id : Nat}, id ∈ Slots.equalRange key s.isections →
      ∃ t, (id, Element.section t) ∈ s.container := fun hid => h.sections _ (Slots.mem_equalRange.mp hid)
  have hdel : delSection o [name] s = some ⟨(Slots.equalRange (changeCase o name) s.isections).foldl delSection1 s,
      [], true⟩ := rfl
  unfold FindsDeleted lastNamed
  rw [hdel]
  cases hlast : (Slots.equalRange (cut name) s.isections).getLast? with
  | none =>
    have hnone := List.getLast?_eq_none_iff.mp hlast
    constructor
    · rintro ⟨r, hr, hsame⟩
      obtain rfl := Option.some.inj hr
      refine .inr ⟨hnone, List.eq_nil_iff_forall_not_mem.mpr fun id hid => ?_⟩
      obtain ⟨t, ht⟩ := hthere hid
      have hleft : (id, Element.section t) ∈
          ((Slots.equalRange (changeCase o name) s.isections).foldl delSection1 s).container := hsame ▸ ht
      exact ((mem_delSections _ s _).mp hleft).2 hid
    · rintro (heq | ⟨-, hempty⟩)
      · refine ⟨_, rfl, ?_⟩
        rw [heq, hnone]
        rfl
      · refine ⟨_, rfl, ?_⟩
        rw [hempty]
        rfl
  | some id =>
    have hid := List.mem_of_getLast? hlast
    obtain ⟨t, ht⟩ := hthere hid
    have hne : Slots.equalRange (cut name) s.isections ≠ [] := List.ne_nil_of_mem hid
    constructor
    · rintro ⟨r, hr, hgone⟩
      obtain rfl := Option.some.inj hr
      refine .inl ?_
      have hfolded : id ∈ Slots.equalRange (changeCase o name) s.isections := by
        by_contra hkept
        exact hgone (List.mem_map.mpr ⟨_, (mem_delSections _ s _).mpr ⟨ht, hkept⟩, rfl⟩)
      exact key_unique h.sectionIds hfolded hid
    · rintro (heq | ⟨hempty, -⟩)
      · refine ⟨_, rfl, fun hmem => ?_⟩
        obtain ⟨x, hx, rfl⟩ := List.mem_map.mp hmem
        rw [heq] at hx
        exact ((mem_delSections _ s _).mp hx).2 hid
      · exact absurd hempty hne

end

end SectionOf

/-! ### Sections that are closed -/

namespace Helper

section

variable {o : Rules} {h h' : Helper} {n : Text} {i k : Nat}

lemma any_getName (h : Helper) (place : List Nat) (n : Text) :
    ((sectionAt place h.ini).any fun s => s.getName == n) = true ↔ h.nameAt place = some n := by
  rw [nameAt]
  cases sectionAt place h.ini with
  | none => simp
  | some s => simp

/-- The sections that are closed, by the literal name first. -/
lemma closing_eq (h : Helper) (n : Text) (i : Nat) :
    h.closing n i =
      (if n = [] then none
        else h.open_sections.findIdx? fun place =>
          (sectionAt place h.ini).any fun s => s.getName == n).getD ((h.innermostRead i).getD 0) + 1 := by
  unfold closing innermostRead
  cases n with
  | nil => rfl
  | cons c n =>
    dsimp only
    rw [if_neg (List.cons_ne_nil c n), List.isEmpty_cons, if_neg Bool.false_ne_true]
    cases (h.open_sections.findIdx? fun place => (sectionAt place h.ini).any fun s => s.getName == c :: n) <;> rfl

lemma closing_eq_iff (hk : h.innermostNamed o.toOptions n = some k) :
    h.closing n i = k + 1 ↔ h.HasLiterally n i k := by
  obtain ⟨hklt, hkname, hkmin⟩ := List.findIdx?_eq_some_iff_getElem.mp hk
  rw [closing_eq, HasLiterally, Nat.add_right_cancel_iff]
  cases hname : (if n = [] then none
      else h.open_sections.findIdx? fun place => (sectionAt place h.ini).any fun s => s.getName == n) with
  | none =>
    have hnone : ¬ (n ≠ [] ∧ ∃ place ∈ h.open_sections, h.nameAt place = some n) := by
      rintro ⟨hn, place, hplace, hliteral⟩
      rw [if_neg hn, List.findIdx?_eq_none_iff] at hname
      exact Bool.eq_false_iff.mp (hname place hplace) ((any_getName h place n).mpr hliteral)
    rw [if_neg hnone, Option.getD_none]
    cases h.innermostRead i with
    | none => simp [eq_comm]
    | some j => simp
  | some j =>
    have hn : n ≠ [] := by
      rintro rfl
      cases hname
    rw [if_neg hn] at hname
    obtain ⟨hjlt, hjname, hjmin⟩ := List.findIdx?_eq_some_iff_getElem.mp hname
    have hjliteral := (any_getName h _ n).mp hjname
    rw [if_pos ⟨hn, _, List.getElem_mem hjlt, hjliteral⟩, Option.getD_some]
    constructor
    · rintro rfl
      rw [List.getElem?_eq_getElem hjlt, Option.bind_some]
      exact hjliteral
    · intro hliteral
      rw [List.getElem?_eq_getElem hklt, Option.bind_some] at hliteral
      refine Nat.le_antisymm (Nat.le_of_not_lt fun hlt => ?_) (Nat.le_of_not_lt fun hlt => ?_)
      · exact hjmin k hlt ((any_getName h _ n).mpr hliteral)
      · refine hkmin j hlt ?_
        rw [hjliteral]
        simp

lemma closing_le (hopen : h.open_sections ≠ []) : h.closing n i ≤ h.open_sections.length := by
  have hpos := List.length_pos_of_ne_nil hopen
  rw [closing_eq]
  cases hname : (if n = [] then none
      else h.open_sections.findIdx? fun place => (sectionAt place h.ini).any fun s => s.getName == n) with
  | none =>
    rw [Option.getD_none]
    cases hread : h.innermostRead i with
    | none => exact hpos
    | some j => exact (List.findIdx?_eq_some_iff_getElem.mp hread).1
  | some j =>
    split at hname
    · cases hname
    · exact (List.findIdx?_eq_some_iff_getElem.mp hname).1

/-- A comment changes neither the name nor the rule of any section. -/
lemma sectionAt_atPlace {c : Text} (place' : List Nat) {s s' : IniSection}
    (hs' : SectionOf.atPlace (fun t => some (t.setEndComment c)) place' s = some s') (place : List Nat) :
    (sectionAt place s').map (fun t => (t.name, t.read_by)) = (sectionAt place s).map fun t => (t.name, t.read_by) := by
  induction place' generalizing s s' place with
  | nil =>
    obtain rfl := Option.some.inj hs'
    have hcontainer : (s.setEndComment c).container = s.container := by
      unfold SectionOf.setEndComment
      split <;> rfl
    cases place with
    | nil =>
      unfold SectionOf.setEndComment
      split <;> rfl
    | cons id place => rw [sectionAt, sectionAt, hcontainer]
  | cons id' place' ih =>
    rw [SectionOf.atPlace] at hs'
    split at hs'
    next t ht =>
      obtain ⟨t', ht', rfl⟩ := Option.map_eq_some_iff.mp hs'
      cases place with
      | nil => rfl
      | cons id place =>
        rw [sectionAt, sectionAt, SectionOf.replace]
        by_cases hid : id = id'
        · subst hid
          rw [Slots.find_replace_of_find ht, ht]
          exact ih ht' place
        · rw [Slots.find_replace_of_ne hid]
    · cases hs'

lemma storeEndComment_spec (hs : h.storeEndComment = some h') : h'.open_sections = h.open_sections ∧
    ∀ place, (sectionAt place h'.ini).map (fun t => (t.name, t.read_by)) =
      (sectionAt place h.ini).map fun t => (t.name, t.read_by) := by
  unfold storeEndComment at hs
  split at hs
  · obtain rfl := Option.some.inj hs
    exact ⟨rfl, fun _ => rfl⟩
  dsimp only at hs
  split at hs
  next hopen =>
    obtain rfl := Option.some.inj hs
    exact ⟨rfl, sectionAt_atPlace [] rfl⟩
  next place' outer hopen =>
    obtain ⟨ini, hini, rfl⟩ := Option.map_eq_some_iff.mp hs
    exact ⟨rfl, sectionAt_atPlace place' hini⟩

lemma closing_storeEndComment (hs : h.storeEndComment = some h') : h'.closing n i = h.closing n i := by
  obtain ⟨hopen, hkept⟩ := storeEndComment_spec hs
  have hany : ∀ (f : Text × Int32 → Bool) (place : List Nat),
      (sectionAt place h'.ini).any (fun t => f (t.name, t.read_by)) =
        (sectionAt place h.ini).any fun t => f (t.name, t.read_by) := by
    intro f place
    have hmap := congrArg (Option.any f) (hkept place)
    rwa [Option.any_map, Option.any_map] at hmap
  have hname := funext (hany fun t => cut t.1 == n)
  have hread := funext (hany fun t => t.2 == Int32.ofNat i)
  unfold closing
  rw [hopen]
  dsimp only at hname hread
  simp only [IniBase.getName, hname, hread]

/-- The end of a section drops the innermost open sections, as many as `closing` tells. -/
lemma endSection_open {line line' : Text} {m : Match}
    (hm : firstMatch (fun r : SectionRule => if r.end_valid then some r.end_rx else none) o.sections line = some (i, m))
    (hend : h.endSection o line = some (h', line')) :
    h'.open_sections = h.open_sections.drop (h.closing (m.groups[1]?.getD []) i) := by
  unfold endSection at hend
  rw [hm] at hend
  obtain ⟨stored, hstored, hend⟩ := Option.bind_eq_some_iff.mp hend
  obtain ⟨rfl, -⟩ := Prod.mk.inj (Option.some.inj hend)
  dsimp only
  rw [closing_storeEndComment hstored, (storeEndComment_spec hstored).1]

/-- The end of a section closes the one that it names if and only if that has the name literally. -/
lemma open_endSection_iff {line line' : Text} {m : Match}
    (hm : firstMatch (fun r : SectionRule => if r.end_valid then some r.end_rx else none) o.sections line = some (i, m))
    (hend : h.endSection o line = some (h', line'))
    (hk : h.innermostNamed o.toOptions (m.groups[1]?.getD []) = some k) :
    h'.open_sections = h.open_sections.drop (k + 1) ↔ h.HasLiterally (m.groups[1]?.getD []) i k := by
  obtain ⟨hklt, -⟩ := List.findIdx?_eq_some_iff_getElem.mp hk
  have hle : h.closing (m.groups[1]?.getD []) i ≤ h.open_sections.length :=
    closing_le (List.ne_nil_of_length_pos (Nat.zero_lt_of_lt hklt))
  rw [← closing_eq_iff hk, endSection_open hm hend]
  constructor
  · intro hdrop
    have hlength := congrArg List.length hdrop
    rw [List.length_drop, List.length_drop] at hlength
    omega
  · intro hclosing
    rw [hclosing]

end

end Helper

lemma everywhere_sectionAt {P : IniSection → Prop} {s t : IniSection} (place : List Nat) (h : Everywhere P s)
    (ht : sectionAt place s = some t) : Everywhere P t := by
  induction place generalizing s with
  | nil =>
    obtain rfl := Option.some.inj ht
    exact h
  | cons id place ih =>
    rw [sectionAt] at ht
    split at ht
    next u hu => exact ih (h.inside id u (Slots.mem_of_find hu)) ht
    · cases ht

/-- In the trees of every run, a new section is found if and only if `changeCase` leaves its name as it is, and a
section that is to be deleted only then or if there is none. The end of a section closes the one that it names if
and only if it names it literally. -/
theorem names_folded_iff (o : Rules) (ops : List Op) (s t : IniSection) (place : List Nat)
    (hs : run o.toOptions ops = some s) (ht : sectionAt place s = some t) :
    (∀ name comment rb wb, ∃ t', t.initSection o.toOptions name comment rb wb = some t' ∧
      (t'.FindsCreated name ↔ changeCase o.toOptions name = cut name)) ∧
    (∀ section_name section_index, OwnSection o.toOptions t section_name section_index ↔
      changeCase o.toOptions section_name = cut section_name) ∧
    (∀ name, t.FindsDeleted o.toOptions name ↔ changeCase o.toOptions name = cut name ∨
      Slots.equalRange (cut name) t.isections = [] ∧
        Slots.equalRange (changeCase o.toOptions name) t.isections = []) ∧
    ∀ h line i m h' line' k,
      firstMatch (fun r : SectionRule => if r.end_valid then some r.end_rx else none) o.sections line = some (i, m) →
      Helper.endSection o h line = some (h', line') →
      h.innermostNamed o.toOptions (m.groups[1]?.getD []) = some k →
      (h'.open_sections = h.open_sections.drop (k + 1) ↔ h.HasLiterally (m.groups[1]?.getD []) i k) := by
  have hlinked := everywhere_sectionAt place (SectionOf.linked_run hs) ht
  refine ⟨SectionOf.findsCreated_initSection hlinked, SectionOf.ownSection_iff hlinked,
    SectionOf.findsDeleted_iff hlinked.here, ?_⟩
  intro h line i m h' line' k hm hend hk
  exact Helper.open_endSection_iff hm hend hk

/-- Case is ignored, and a line `/A` ends the section `A`. -/
def Rules.folding : Rules :=
  { Rules.bare with
    ignore_case := true
    sections := [⟨fun _ => none, fun line => if line = [47, 65] then some ⟨[line, [65]], []⟩ else none, true⟩] }

/-- A section `A`, and a section `B` in it. -/
def nestedSections : List Op := [.initSection [] [65] [] 0 (-1), .initSection [1] [66] [] 0 (-1)]

theorem names_folded_nested : ∃ s, run Rules.folding.toOptions nestedSections = some s ∧
    ∀ name, s.FindsDeleted Rules.folding.toOptions name ↔ changeCase Rules.folding.toOptions name = cut name ∨
      Slots.equalRange (cut name) s.isections = [] ∧
        Slots.equalRange (changeCase Rules.folding.toOptions name) s.isections = [] :=
  ⟨_, rfl, (names_folded_iff Rules.folding nestedSections _ _ [] rfl rfl).2.2.1⟩

/-- The file `A` is not found, the section `A` is deleted and not found, and `/A` closes the section `B` only. -/
theorem not_names_folded :
    (¬ ∀ o section_name section_index, OwnSection o .new section_name section_index) ∧
    (¬ ∀ o ops s name, run o ops = some s → s.FindsDeleted o name) ∧
    ¬ ∀ (o : Rules) (h : Helper) line i m h' line' k,
      firstMatch (fun r : SectionRule => if r.end_valid then some r.end_rx else none) o.sections line = some (i, m) →
      h.endSection o line = some (h', line') →
      h.innermostNamed o.toOptions (m.groups[1]?.getD []) = some k →
      h'.open_sections = h.open_sections.drop (k + 1) := by
  refine ⟨fun hall => ?_, fun hall => ?_, fun hall => ?_⟩
  · have hfolded := (SectionOf.ownSection_iff SectionOf.everywhere_linked_new [65] (-1)).mp
      (hall Rules.folding.toOptions [65] (-1))
    exact absurd hfolded (by decide)
  · have hrun : ∃ s, run Rules.folding.toOptions nestedSections = some s := ⟨_, rfl⟩
    obtain ⟨s, hs⟩ := hrun
    have hdeleted := (SectionOf.findsDeleted_iff (SectionOf.linked_run hs).here [65]).mp (hall _ nestedSections s _ hs)
    obtain rfl := Option.some.inj hs
    exact absurd hdeleted (by decide)
  · have hclosed : [[1, 1], [1]].drop 1 = [[1, 1], [1]].drop 2 := hall Rules.folding
      { ini := SectionOf.pushSection Rules.folding.toOptions .new [97]
          (SectionOf.pushSection Rules.folding.toOptions (.named [97]) [98] (.named [98])),
        open_sections := [[1, 1], [1]] } [47, 65] 0 ⟨[[47, 65], [65]], []⟩ _ _ 1 rfl rfl rfl
    exact absurd hclosed (by decide)

end YastCore.Ini
