import YastCore.Ini.Scan

/-!
# The stack of open sections

`parse_helper` keeps pointers to sections over the lines, while `initSection` destroys a section and puts a
copy of it at the end of the container. The copy may get the place that the destroyed section had; so a
pointer is a place together with the time when the section there was made.
-/

namespace YastCore.Ini

open Lines

/-! ### Pointers -/

/-- The address of a section. No other section is made at the same place at the same time. -/
structure Pointer where
  place : List Nat
  made : Nat
deriving DecidableEq

/-- The variables of `parse_helper` and the pointers that stand for the places in `open_sections`. -/
structure Memory where
  helper : Helper
  made : List Nat → Nat := fun _ => 0
  time : Nat := 1
  pointers : List Pointer := []

namespace Memory

/-- The address of the section that is at this place now. -/
def pointer (m : Memory) (place : List Nat) : Pointer := ⟨place, m.made place⟩

/-- Sections that are no longer open leave the stack; they are its first ones. -/
def closes (m : Memory) (h : Helper) : Memory :=
  { m with helper := h, pointers := m.pointers.drop (m.helper.open_sections.length - h.open_sections.length) }

/-- A section is made, with all sections in it, and its address is pushed. -/
def opens (m : Memory) (h : Helper) : Memory :=
  let place := h.open_sections.headD []
  { helper := h
    made := fun p => if place.isPrefixOf p then m.time else m.made p
    time := m.time + 1
    pointers := ⟨place, m.time⟩ :: m.pointers }

/-! ### The lines -/

/-- A part of the body of the loop. -/
abbrev Stage := Memory → Text → Option (Memory × Text)

/-- A part that makes no section. -/
def keeping (f : Helper → Text → Option (Helper × Text)) : Stage := fun m line =>
  (f m.helper line).map fun r => (m.closes r.1, r.2)

/-- The begin of a section: previous sections are closed before it is made. -/
def beginSection (o : Rules) : Stage := fun m line =>
  match firstMatch (fun r : SectionRule => some r.begin_rx) o.sections line with
  | none => some (m, line)
  | some _ => do
    let closed ← m.helper.closePrevious o
    let (h, rest) ← m.helper.beginSection o line
    if h.open_sections.length = closed.open_sections.length then some (m.closes h, rest)
    else some ((m.closes closed).opens h, rest)

/-- One part after the other: the states in between, and what is left of the line. -/
def stages : List Stage → Memory → Text → List Memory × Option (Memory × Text)
  | [], m, line => ([], some (m, line))
  | f :: fs, m, line =>
    match f m line with
    | none => ([], none)
    | some (m, line) => (m :: (stages fs m line).1, (stages fs m line).2)

/-- Up to a value that was begun on an earlier line. -/
def valueStages (o : Rules) : List Stage :=
  [keeping fun h line => some (if o.comments_last then (h, line) else h.takeComment o line),
    keeping fun h line => if h.state then h.continueValue o line else some (h, line)]

def sectionStages (o : Rules) : List Stage :=
  [beginSection o, keeping fun h line => h.endSection o line, keeping fun h line => h.takeValue o line,
    keeping fun h line => h.beginValue o line,
    keeping fun h line => some (if o.comments_last then h.takeComment o line else (h, line))]

/-- The body of the loop of `parse_helper`. -/
def parseLine (o : Rules) (m : Memory) (line : Text) : List Memory × Option (Memory × Text) :=
  if (firstMatch some o.linecomments line).isSome then
    stages [keeping fun h line => some ({ h with comment := h.comment ++ line ++ [newline] }, line)] m line
  else
    let first := stages (valueStages o) m line
    match first.2 with
    | none => first
    | some (m, line) =>
      if m.helper.state then first
      else (first.1 ++ (stages (sectionStages o) m line).1, (stages (sectionStages o) m line).2)

/-- The states of a run, those within the lines among them. -/
def run (o : Rules) (m : Memory) : List Text → List Memory
  | [] => [m]
  | line :: lines =>
    m :: ((m.parseLine o line).1 ++
      match (m.parseLine o line).2 with
      | none => []
      | some (m, _) => run o m lines)

/-! ### Chains -/

/-- The pointer is the address of a child in the container of the section at this place. -/
def ChildAt (m : Memory) (place : List Nat) (p : Pointer) : Prop :=
  ∃ parent id t, sectionAt place m.helper.ini = some parent ∧
    Assoc.find id parent.container = some (.section t) ∧ p = m.pointer (place ++ [id])

/-- Each section is a child in the container of the next one, and the last is a child of the root. -/
def Chain (m : Memory) : List Pointer → Prop
  | [] => True
  | p :: outer => m.ChildAt ((outer.head?.map Pointer.place).getD []) p ∧ m.Chain outer

/-- The section that the pointer was made for is still there. -/
def Live (m : Memory) (p : Pointer) : Prop :=
  (sectionAt p.place m.helper.ini).isSome ∧ p = m.pointer p.place

/-- The pointers are those of the open sections, they are a chain, none is to an erased section, and no address
is used again. -/
structure Sound (m : Memory) : Prop where
  places : m.pointers.map Pointer.place = m.helper.open_sections
  chain : m.Chain m.pointers
  live : ∀ p ∈ m.pointers, m.Live p
  past : ∀ place, m.made place < m.time

end Memory

/-! ### Places -/

lemma sectionAt_concat (place : List Nat) (id : Nat) {s parent t : IniSection}
    (hparent : sectionAt place s = some parent)
    (ht : Assoc.find id parent.container = some (.section t)) : sectionAt (place ++ [id]) s = some t := by
  induction place generalizing s with
  | nil =>
    obtain rfl := Option.some.inj hparent
    rw [List.nil_append, sectionAt, ht]
    rfl
  | cons i place ih =>
    rw [sectionAt] at hparent
    rw [List.cons_append, sectionAt]
    split at hparent
    · exact ih hparent
    · cases hparent

/-- Sections stay where they are when one of them or of the sections in them is changed. -/
lemma sectionAt_path {f : IniSection → Option IniSection} (a : List Nat) {id : Nat} {b : List Nat} {s s' : IniSection}
    (h : SectionOf.atPlace f (a ++ id :: b) s = some s') :
    ∃ parent t, sectionAt a s' = some parent ∧ Assoc.find id parent.container = some (.section t) := by
  induction a generalizing s s' with
  | nil =>
    rw [List.nil_append, SectionOf.atPlace] at h
    split at h
    next t ht =>
      obtain ⟨t', -, rfl⟩ := Option.map_eq_some_iff.mp h
      exact ⟨_, t', rfl, Slots.find_replace_of_find ht _⟩
    next => cases h
  | cons i a ih =>
    rw [List.cons_append, SectionOf.atPlace] at h
    split at h
    next t ht =>
      obtain ⟨t', ht', rfl⟩ := Option.map_eq_some_iff.mp h
      obtain ⟨parent, u, hparent, hu⟩ := ih ht'
      refine ⟨parent, u, ?_, hu⟩
      rw [sectionAt, SectionOf.replace, Slots.find_replace_of_find ht]
      exact hparent
    next => cases h

lemma sectionAt_self {f : IniSection → Option IniSection} (place : List Nat) {s s' : IniSection}
    (h : SectionOf.atPlace f place s = some s') : ∃ t t', f t = some t' ∧ sectionAt place s' = some t' := by
  induction place generalizing s s' with
  | nil => exact ⟨s, s', h, rfl⟩
  | cons i place ih =>
    rw [SectionOf.atPlace] at h
    split at h
    next t ht =>
      obtain ⟨t', ht', rfl⟩ := Option.map_eq_some_iff.mp h
      obtain ⟨u, u', hu, hplace⟩ := ih ht'
      refine ⟨u, u', hu, ?_⟩
      rw [sectionAt, SectionOf.replace, Slots.find_replace_of_find ht]
      exact hplace
    next => cases h

/-- The section that was made is the last one. -/
lemma last_initSection {o : Options} {s s' : IniSection} {name comment : Text} {rb wb : Int32}
    (h : s.initSection o name comment rb wb = some s') :
    ∃ id t, s'.container.getLast? = some (id, .section t) ∧ Assoc.find id s'.container = some (.section t) := by
  have hpush (u v : IniSection) (k : Text) : ∃ id t, (u.pushSection o k v).container.getLast? = some (id, .section t) ∧
      Assoc.find id (u.pushSection o k v).container = some (.section t) :=
    ⟨Slots.fresh u.container, copySection o v, List.getLast?_concat, Slots.find_push_fresh u.container _⟩
  unfold SectionOf.initSection at h
  dsimp only at h
  split at h
  · obtain rfl := Option.some.inj h
    exact hpush _ _ _
  · split at h
    · obtain rfl := Option.some.inj h
      exact hpush _ _ _
    · cases h

/-! ### What the parts of the loop do -/

namespace Helper

/-- A part that makes no section closes some of the innermost sections, and what it changes is in the innermost. -/
structure Within (h h' : Helper) : Prop where
  popped : h'.open_sections <:+ h.open_sections
  inside : h.open_sections ≠ [] →
    h'.ini = h.ini ∨ ∃ f, SectionOf.atPlace f (h.open_sections.headD []) h.ini = some h'.ini

variable {o : Rules} {h h' : Helper} {line rest : Text}

lemma Within.of_eq (hopen : h'.open_sections = h.open_sections) (hini : h'.ini = h.ini) : Within h h' :=
  ⟨hopen ▸ List.suffix_refl _, fun _ => .inl hini⟩

lemma Within.of_root (hopen : h.open_sections = []) (hsame : h'.open_sections = h.open_sections) : Within h h' :=
  ⟨hsame ▸ List.suffix_refl _, fun hne => absurd hopen hne⟩

lemma Within.of_front {place : List Nat} {outer : List (List Nat)} {f : IniSection → Option IniSection}
    (hopen : h.open_sections = place :: outer) (hsame : h'.open_sections = h.open_sections)
    (hini : SectionOf.atPlace f place h.ini = some h'.ini) : Within h h' := by
  refine ⟨hsame ▸ List.suffix_refl _, fun _ => .inr ⟨f, ?_⟩⟩
  rw [hopen]
  exact hini

lemma within_storeValue {key val : Text} {rb : Nat} (hs : storeValue o h key val rb = some h') :
    h'.open_sections = h.open_sections ∧ Within h h' := by
  unfold storeValue at hs
  dsimp only at hs
  split at hs
  next hopen =>
    split at hs
    · obtain rfl := Option.some.inj hs
      exact ⟨rfl, .of_eq rfl rfl⟩
    · obtain ⟨ini, -, rfl⟩ := Option.map_eq_some_iff.mp hs
      exact ⟨rfl, .of_root hopen rfl⟩
  next place outer hopen =>
    obtain ⟨ini, hini, rfl⟩ := Option.map_eq_some_iff.mp hs
    exact ⟨rfl, .of_front hopen rfl hini⟩

lemma within_storeEndComment (hs : h.storeEndComment = some h') :
    h'.open_sections = h.open_sections ∧ Within h h' := by
  unfold storeEndComment at hs
  split at hs
  · obtain rfl := Option.some.inj hs
    exact ⟨rfl, .of_eq rfl rfl⟩
  dsimp only at hs
  split at hs
  next hopen =>
    obtain rfl := Option.some.inj hs
    exact ⟨rfl, .of_root hopen rfl⟩
  next place outer hopen =>
    obtain ⟨ini, hini, rfl⟩ := Option.map_eq_some_iff.mp hs
    exact ⟨rfl, .of_front hopen rfl hini⟩

lemma within_takeComment (o : Rules) (h : Helper) (line : Text) : Within h (h.takeComment o line).1 := by
  unfold takeComment
  split
  · exact .of_eq rfl rfl
  · exact .of_eq rfl rfl

lemma within_continueValue (hr : h.continueValue o line = some (h', rest)) : Within h h' := by
  unfold continueValue at hr
  obtain ⟨param, -, hr⟩ := Option.bind_eq_some_iff.mp hr
  split at hr
  · obtain ⟨part, -, hr⟩ := Option.bind_eq_some_iff.mp hr
    obtain ⟨stored, hstored, hr⟩ := Option.bind_eq_some_iff.mp hr
    obtain ⟨rfl, -⟩ := Prod.mk.inj (Option.some.inj hr)
    obtain ⟨-, hwithin⟩ := within_storeValue hstored
    exact ⟨hwithin.popped, hwithin.inside⟩
  · obtain ⟨rfl, -⟩ := Prod.mk.inj (Option.some.inj hr)
    exact .of_eq rfl rfl

lemma within_closePrevious (hc : closePrevious o h = some h') : Within h h' ∧ h'.ini = h.ini := by
  unfold closePrevious at hc
  split at hc
  next =>
    obtain rfl := Option.some.inj hc
    exact ⟨.of_eq rfl rfl, rfl⟩
  next place outer hopen =>
    obtain ⟨cur, -, hc⟩ := Option.bind_eq_some_iff.mp hc
    dsimp only at hc
    split at hc
    · cases hc
    obtain ⟨rule, -, hc⟩ := Option.bind_eq_some_iff.mp hc
    split at hc
    · obtain rfl := Option.some.inj hc
      exact ⟨.of_eq rfl rfl, rfl⟩
    · obtain rfl := Option.some.inj hc
      refine ⟨⟨?_, fun _ => .inl rfl⟩, rfl⟩
      rw [hopen]
      exact List.suffix_cons place outer

lemma within_endSection (hr : h.endSection o line = some (h', rest)) : Within h h' := by
  unfold endSection at hr
  split at hr
  · obtain ⟨rfl, -⟩ := Prod.mk.inj (Option.some.inj hr)
    exact .of_eq rfl rfl
  · obtain ⟨stored, hstored, hr⟩ := Option.bind_eq_some_iff.mp hr
    obtain ⟨rfl, -⟩ := Prod.mk.inj (Option.some.inj hr)
    obtain ⟨hopen, hwithin⟩ := within_storeEndComment hstored
    exact ⟨hopen ▸ List.drop_suffix _ _, hwithin.inside⟩

lemma within_takeValue (hr : h.takeValue o line = some (h', rest)) : Within h h' := by
  unfold takeValue at hr
  split at hr
  · obtain ⟨rfl, -⟩ := Prod.mk.inj (Option.some.inj hr)
    exact .of_eq rfl rfl
  · obtain ⟨key, -, hr⟩ := Option.bind_eq_some_iff.mp hr
    obtain ⟨val, -, hr⟩ := Option.bind_eq_some_iff.mp hr
    obtain ⟨stored, hstored, hr⟩ := Option.bind_eq_some_iff.mp hr
    obtain ⟨rfl, -⟩ := Prod.mk.inj (Option.some.inj hr)
    exact (within_storeValue hstored).2

lemma within_beginValue (hr : h.beginValue o line = some (h', rest)) : Within h h' := by
  unfold beginValue at hr
  split at hr
  · obtain ⟨rfl, -⟩ := Prod.mk.inj (Option.some.inj hr)
    exact .of_eq rfl rfl
  · obtain ⟨key, -, hr⟩ := Option.bind_eq_some_iff.mp hr
    obtain ⟨val, -, hr⟩ := Option.bind_eq_some_iff.mp hr
    obtain ⟨rfl, -⟩ := Prod.mk.inj (Option.some.inj hr)
    exact .of_eq rfl rfl

/-- The begin of a section: where one is made, it is in the innermost section that stays open, or in the root. -/
lemma beginSection_cases {i : Nat} {m : Match}
    (hm : firstMatch (fun r : SectionRule => some r.begin_rx) o.sections line = some (i, m))
    (hr : h.beginSection o line = some (h', rest)) :
    ∃ closed, closePrevious o h = some closed ∧
      (h'.open_sections = closed.open_sections ∧ h'.ini = closed.ini ∨
        ∃ id parent t f, h'.open_sections = (closed.open_sections.headD [] ++ [id]) :: closed.open_sections ∧
          SectionOf.atPlace f (closed.open_sections.headD []) closed.ini = some h'.ini ∧
          sectionAt (closed.open_sections.headD []) h'.ini = some parent ∧
          Assoc.find id parent.container = some (.section t)) := by
  unfold beginSection at hr
  rw [hm] at hr
  obtain ⟨found, -, hr⟩ := Option.bind_eq_some_iff.mp hr
  obtain ⟨closed, hclosed, hr⟩ := Option.bind_eq_some_iff.mp hr
  refine ⟨closed, hclosed, ?_⟩
  split at hr
  · obtain ⟨rfl, -⟩ := Prod.mk.inj (Option.some.inj hr)
    exact .inl ⟨rfl, rfl⟩
  · obtain ⟨ini, hini, hr⟩ := Option.bind_eq_some_iff.mp hr
    obtain ⟨parent, hparent, hr⟩ := Option.bind_eq_some_iff.mp hr
    obtain ⟨new, hnew, hr⟩ := Option.bind_eq_some_iff.mp hr
    obtain ⟨rfl, -⟩ := Prod.mk.inj (Option.some.inj hr)
    obtain ⟨s, s', hinit, hself⟩ := sectionAt_self _ hini
    obtain rfl := Option.some.inj (hparent.symm.trans hself)
    obtain ⟨id, t, hlast, hfind⟩ := last_initSection hinit
    obtain rfl := Option.some.inj (hnew.symm.trans hlast)
    exact .inr ⟨id, parent, t, _, rfl, hini, hparent, hfind⟩

end Helper

namespace Memory

/-! ### Chains of pointers -/

lemma chain_drop {m : Memory} {ps : List Pointer} (n : Nat) (h : m.Chain ps) : m.Chain (ps.drop n) := by
  induction n generalizing ps with
  | zero => exact h
  | succ n ih =>
    cases ps with
    | nil => exact h
    | cons p outer => exact ih h.2

lemma chain_of_eq {m m' : Memory} {ps : List Pointer} (hini : m'.helper.ini = m.helper.ini) (hmade : m'.made = m.made)
    (h : m.Chain ps) : m'.Chain ps := by
  induction ps with
  | nil => trivial
  | cons p outer ih =>
    obtain ⟨⟨parent, id, t, hparent, ht, rfl⟩, houter⟩ := h
    refine ⟨⟨parent, id, t, hini ▸ hparent, ht, ?_⟩, ih houter⟩
    rw [pointer, pointer, hmade]

lemma live_of_chain {m : Memory} {ps : List Pointer} (h : m.Chain ps) : ∀ p ∈ ps, m.Live p := by
  induction ps with
  | nil => exact List.forall_mem_nil _
  | cons p outer ih =>
    refine List.forall_mem_cons.mpr ⟨?_, ih h.2⟩
    obtain ⟨parent, id, t, hparent, ht, rfl⟩ := h.1
    refine ⟨?_, rfl⟩
    rw [pointer, sectionAt_concat _ id hparent ht]
    rfl

/-- What is done in the innermost open section leaves the chain as it is. -/
lemma chain_inside {m m' : Memory} {f : IniSection → Option IniSection} {place : List Nat} {ps : List Pointer}
    (hini : SectionOf.atPlace f place m.helper.ini = some m'.helper.ini)
    (hmade : ∀ p, p <+: place → m'.made p = m.made p) (hfront : ∀ p ∈ ps.head?, p.place <+: place)
    (h : m.Chain ps) : m'.Chain ps := by
  induction ps with
  | nil => trivial
  | cons p outer ih =>
    obtain ⟨⟨parent, id, t, -, -, rfl⟩, houter⟩ := h
    have hprefix := hfront _ rfl
    obtain ⟨rest, hrest⟩ := hprefix
    rw [pointer, List.append_assoc, List.singleton_append] at hrest
    obtain ⟨parent', t', hparent', ht'⟩ := sectionAt_path _ (hrest ▸ hini)
    refine ⟨⟨parent', id, t', hparent', ht', ?_⟩, ih (fun q hq => ?_) houter⟩
    · rw [pointer, pointer, hmade _ ⟨rest, by rw [List.append_assoc]; exact hrest⟩]
    · rw [Option.mem_def.mp hq] at hrest
      exact ⟨id :: rest, hrest⟩

lemma made_opens (m : Memory) {h : Helper} {place : List Nat} {outer : List (List Nat)}
    (hopen : h.open_sections = place :: outer) (p : List Nat) :
    (m.opens h).made p = if place.isPrefixOf p then m.time else m.made p := by
  rw [opens, hopen]
  rfl

/-- A pointer from before is to no section in the one that is made, also where that has the place of a section
that was erased for it. -/
lemma not_live_opens {m : Memory} {h : Helper} {place : List Nat} {outer : List (List Nat)} {p : Pointer}
    (hopen : h.open_sections = place :: outer) (hp : p.made < m.time) (hplace : place <+: p.place) :
    ¬ (m.opens h).Live p := by
  rintro ⟨-, heq⟩
  rw [pointer, made_opens m hopen, if_pos (List.isPrefixOf_iff_prefix.mpr hplace)] at heq
  rw [heq] at hp
  exact absurd hp (Nat.lt_irrefl _)

lemma Sound.of_chain {m : Memory} (hplaces : m.pointers.map Pointer.place = m.helper.open_sections)
    (hchain : m.Chain m.pointers) (hpast : ∀ place, m.made place < m.time) : m.Sound :=
  ⟨hplaces, hchain, live_of_chain hchain, hpast⟩

lemma Sound.closes {m : Memory} {h : Helper} (hm : m.Sound) (hwithin : m.helper.Within h) : (m.closes h).Sound := by
  refine .of_chain ?_ (chain_drop _ ?_) hm.past
  · rw [Memory.closes, List.map_drop, hm.places]
    exact (List.suffix_iff_eq_drop.mp hwithin.popped).symm
  · cases hpointers : m.pointers with
    | nil => trivial
    | cons p outer =>
      have hopen : m.helper.open_sections = p.place :: outer.map Pointer.place := by
        rw [← hm.places, hpointers]
        rfl
      have hchain := hm.chain
      rw [hpointers] at hchain
      rcases hwithin.inside (by simp [hopen]) with hini | ⟨f, hini⟩
      · exact chain_of_eq hini rfl hchain
      · rw [hopen] at hini
        refine chain_inside (m := m) hini (fun _ _ => rfl) (fun q hq => ?_) hchain
        obtain rfl := Option.some.inj hq
        exact List.prefix_refl _

/-- The section that is made is a child of the innermost open one, and it is no section that was there before. -/
lemma Sound.opens {m : Memory} {h : Helper} {id : Nat} {parent t : IniSection} {f : IniSection → Option IniSection}
    (hm : m.Sound) (hopen : h.open_sections = (m.helper.open_sections.headD [] ++ [id]) :: m.helper.open_sections)
    (hini : SectionOf.atPlace f (m.helper.open_sections.headD []) m.helper.ini = some h.ini)
    (hparent : sectionAt (m.helper.open_sections.headD []) h.ini = some parent)
    (ht : Assoc.find id parent.container = some (.section t)) : (m.opens h).Sound := by
  have hplace : (m.pointers.head?.map Pointer.place).getD [] = m.helper.open_sections.headD [] := by
    rw [← List.head?_map, hm.places, List.headD_eq_head?_getD]
  refine .of_chain ?_ ⟨?_, ?_⟩ fun p => ?_
  · rw [Memory.opens, List.map_cons, hm.places, hopen]
    rfl
  · rw [hplace]
    refine ⟨parent, id, t, hparent, ht, ?_⟩
    rw [pointer, made_opens m hopen, if_pos (List.isPrefixOf_iff_prefix.mpr (List.prefix_refl _)), hopen]
    rfl
  · refine chain_inside hini (fun p hp => ?_) (fun p hp => ?_) hm.chain
    · -- what is on the stack is outside of the new section
      rw [made_opens m hopen, if_neg]
      intro hmade
      have hlength := ((List.isPrefixOf_iff_prefix.mp hmade).trans hp).length_le
      rw [List.length_append, List.length_singleton] at hlength
      omega
    · rw [← hplace, Option.mem_def.mp hp]
      exact List.prefix_refl _
  · have hpast := hm.past p
    have htime : (m.opens h).time = m.time + 1 := rfl
    rw [made_opens m hopen, htime]
    split_ifs
    · omega
    · omega

/-! ### Runs -/

/-- What a part of the loop keeps. -/
def Keeps (f : Stage) : Prop := ∀ m line r, m.Sound → f m line = some r → r.1.Sound

lemma keeps_keeping {f : Helper → Text → Option (Helper × Text)}
    (hf : ∀ h line r, f h line = some r → h.Within r.1) : Keeps (keeping f) := by
  intro m line r hm hr
  obtain ⟨q, hq, rfl⟩ := Option.map_eq_some_iff.mp hr
  exact hm.closes (hf _ _ _ hq)

lemma keeps_beginSection (o : Rules) : Keeps (beginSection o) := by
  intro m line r hm hr
  unfold beginSection at hr
  split at hr
  · obtain rfl := Option.some.inj hr
    exact hm
  next q hmatch =>
    obtain ⟨closed, hclosed, hr⟩ := Option.bind_eq_some_iff.mp hr
    obtain ⟨⟨h, rest⟩, hbegin, hr⟩ := Option.bind_eq_some_iff.mp hr
    obtain ⟨closed', hclosed', hcases⟩ := Helper.beginSection_cases hmatch hbegin
    obtain rfl := Option.some.inj (hclosed.symm.trans hclosed')
    obtain ⟨hwithin, hini⟩ := Helper.within_closePrevious hclosed
    rcases hcases with ⟨hopen, hsame⟩ | ⟨id, parent, t, f, hopen, hat, hparent, ht⟩
    · dsimp only at hr
      rw [if_pos (congrArg List.length hopen)] at hr
      obtain rfl := Option.some.inj hr
      exact hm.closes ⟨hopen ▸ hwithin.popped, fun _ => .inl (hsame.trans hini)⟩
    · dsimp only at hr
      rw [if_neg (by simp [hopen])] at hr
      obtain rfl := Option.some.inj hr
      exact (hm.closes hwithin).opens hopen hat hparent ht

lemma sound_stages {fs : List Stage} (hfs : ∀ f ∈ fs, Keeps f) {m : Memory} (hm : m.Sound) (line : Text) :
    (∀ m' ∈ (stages fs m line).1, m'.Sound) ∧ ∀ r, (stages fs m line).2 = some r → r.1.Sound := by
  induction fs generalizing m line with
  | nil =>
    refine ⟨List.forall_mem_nil _, fun r hr => ?_⟩
    obtain rfl := Option.some.inj hr
    exact hm
  | cons f fs ih =>
    rw [stages]
    cases hf : f m line with
    | none => exact ⟨List.forall_mem_nil _, fun r hr => absurd hr (by simp)⟩
    | some q =>
      have hq := hfs f List.mem_cons_self m line q hm hf
      obtain ⟨hbetween, hend⟩ := ih (fun g hg => hfs g (List.mem_cons_of_mem f hg)) hq q.2
      exact ⟨List.forall_mem_cons.mpr ⟨hq, hbetween⟩, hend⟩

lemma keeps_valueStages (o : Rules) : ∀ f ∈ valueStages o, Keeps f := by
  simp only [valueStages, List.forall_mem_cons]
  refine ⟨keeps_keeping fun h line r hr => ?_, keeps_keeping fun h line r hr => ?_, List.forall_mem_nil _⟩
  · obtain rfl := Option.some.inj hr
    split
    · exact .of_eq rfl rfl
    · exact Helper.within_takeComment o h line
  · split at hr
    · exact Helper.within_continueValue hr
    · obtain rfl := Option.some.inj hr
      exact .of_eq rfl rfl

lemma keeps_sectionStages (o : Rules) : ∀ f ∈ sectionStages o, Keeps f := by
  simp only [sectionStages, List.forall_mem_cons]
  refine ⟨keeps_beginSection o, keeps_keeping fun h line r hr => Helper.within_endSection hr,
    keeps_keeping fun h line r hr => Helper.within_takeValue hr,
    keeps_keeping fun h line r hr => Helper.within_beginValue hr,
    keeps_keeping fun h line r hr => ?_, List.forall_mem_nil _⟩
  obtain rfl := Option.some.inj hr
  split
  · exact Helper.within_takeComment o h line
  · exact .of_eq rfl rfl

/-- What one line keeps. -/
lemma sound_parseLine (o : Rules) {m : Memory} (hm : m.Sound) (line : Text) :
    (∀ m' ∈ (m.parseLine o line).1, m'.Sound) ∧ ∀ r, (m.parseLine o line).2 = some r → r.1.Sound := by
  unfold parseLine
  split
  · refine sound_stages (List.forall_mem_singleton.mpr (keeps_keeping fun h line r hr => ?_)) hm line
    obtain rfl := Option.some.inj hr
    exact .of_eq rfl rfl
  obtain ⟨hbetween, hend⟩ := sound_stages (keeps_valueStages o) hm line
  dsimp only
  split
  · exact ⟨hbetween, hend⟩
  next m' line' hfirst =>
    split
    · exact ⟨hbetween, hend⟩
    · obtain ⟨hbetween', hend'⟩ := sound_stages (keeps_sectionStages o) (hend _ hfirst) line'
      exact ⟨List.forall_mem_append.mpr ⟨hbetween, hbetween'⟩, hend'⟩

lemma sound_run (o : Rules) (lines : List Text) {m : Memory} (hm : m.Sound) : ∀ m' ∈ run o m lines, m'.Sound := by
  induction lines generalizing m with
  | nil => exact List.forall_mem_singleton.mpr hm
  | cons line lines ih =>
    obtain ⟨hbetween, hend⟩ := sound_parseLine o hm line
    rw [run]
    refine List.forall_mem_cons.mpr ⟨hm, List.forall_mem_append.mpr ⟨hbetween, ?_⟩⟩
    split
    · exact List.forall_mem_nil _
    next m' _ hline => exact ih (hend _ hline)

/-- In every run over lines, into an empty tree or another, the open sections are a chain of sections that are there. -/
theorem openSections_sound (o : Rules) (ini : IniSection) (lines : List Text) :
    ∀ m ∈ run o { helper := { ini := ini } } lines, m.Sound :=
  sound_run o lines (.of_chain rfl trivial fun _ => Nat.zero_lt_one)

/-- A line with a bracket at its front begins a section, which has no end. -/
def bracketRules : Rules :=
  { Rules.bare with
    sections := [⟨fun line => if line.head? = some 91 then some ⟨[line, line.drop 1], []⟩ else none,
      fun _ => none, false⟩] }

/-- The lines `[a` and `[a`: the second section has the place of the first, which was erased, but not its address. -/
theorem openSections_sound_twice :
    ∃ m ∈ run bracketRules { helper := { ini := .new } } [[91, 97], [91, 97]], m.pointers = [⟨[1], 2⟩] ∧ m.Sound :=
  have hne : run bracketRules { helper := { ini := .new } } [[91, 97], [91, 97]] ≠ [] := List.cons_ne_nil _ _
  ⟨_, List.getLast_mem hne, rfl, openSections_sound bracketRules .new _ _ (List.getLast_mem hne)⟩

/-! ### The loop without the pointers -/

/-- The variables alone. -/
def forget (r : Memory × Text) : Helper × Text := (r.1.helper, r.2)

/-- A part of the loop does to the variables what it does without the pointers. -/
def Follows (f : Stage) (g : Helper → Text → Option (Helper × Text)) : Prop :=
  ∀ m line, (f m line).map forget = g m.helper line

lemma follows_keeping (f : Helper → Text → Option (Helper × Text)) : Follows (keeping f) f := by
  intro m line
  rw [keeping, Option.map_map]
  exact Option.map_id'

lemma follows_beginSection (o : Rules) : Follows (beginSection o) fun h line => h.beginSection o line := by
  intro m line
  change (beginSection o m line).map forget = m.helper.beginSection o line
  unfold beginSection
  split
  next hmatch =>
    unfold Helper.beginSection
    rw [hmatch]
    rfl
  next q hmatch =>
    cases hbegin : m.helper.beginSection o line with
    | none => cases m.helper.closePrevious o <;> rfl
    | some r =>
      obtain ⟨closed, hclosed, -⟩ := Helper.beginSection_cases hmatch hbegin
      rw [hclosed]
      dsimp only [Option.bind_eq_bind, Option.bind_some]
      split
      · rfl
      · rfl

def StagesFollow (fs : List Stage) (k : Helper → Text → Option (Helper × Text)) : Prop :=
  Follows (fun m line => (stages fs m line).2) k

lemma stagesFollow_nil : StagesFollow [] fun h line => some (h, line) := fun _ _ => rfl

lemma stagesFollow_cons {f : Stage} {fs : List Stage} {g k : Helper → Text → Option (Helper × Text)}
    (hf : Follows f g) (hfs : StagesFollow fs k) :
    StagesFollow (f :: fs) fun h line => (g h line).bind fun r => k r.1 r.2 := by
  intro m line
  dsimp only
  rw [← hf m line, stages]
  cases f m line with
  | none => rfl
  | some r => exact hfs r.1 r.2

lemma follows_valueStages (o : Rules) : StagesFollow (valueStages o) fun h line =>
    (some (if o.comments_last then (h, line) else h.takeComment o line)).bind fun r =>
      (if r.1.state then r.1.continueValue o r.2 else some r).bind some :=
  stagesFollow_cons (follows_keeping _) (stagesFollow_cons (follows_keeping _) stagesFollow_nil)

lemma follows_sectionStages (o : Rules) : StagesFollow (sectionStages o) fun h line =>
    (h.beginSection o line).bind fun r => (r.1.endSection o r.2).bind fun r => (r.1.takeValue o r.2).bind fun r =>
      (r.1.beginValue o r.2).bind fun r => some (if o.comments_last then r.1.takeComment o r.2 else r) :=
  stagesFollow_cons (follows_beginSection o) (stagesFollow_cons (follows_keeping _)
    (stagesFollow_cons (follows_keeping _) (stagesFollow_cons (follows_keeping _)
      (stagesFollow_cons (follows_keeping _) stagesFollow_nil))))

/-- The line is parsed as it is without the pointers. -/
theorem parseLine_helper (o : Rules) (m : Memory) (line : Text) :
    (m.parseLine o line).2.map forget = m.helper.parseLine o line := by
  unfold parseLine Helper.parseLine
  split
  · exact stagesFollow_cons (follows_keeping _) stagesFollow_nil m line
  have hfirst := follows_valueStages o m line
  dsimp only at hfirst ⊢
  rw [Option.bind_some, Option.bind_fun_some] at hfirst
  generalize (if o.comments_last then (m.helper, line) else Helper.takeComment o m.helper line) = first at hfirst ⊢
  refine Eq.trans ?_ (apply_ite (Option.bind · _) _ _ _)
  rw [← hfirst]
  cases hstages : (stages (valueStages o) m line).2 with
  | none =>
    rw [Option.map_none, Option.bind_none, hstages]
    rfl
  | some r =>
    rw [Option.map_some, Option.bind_some]
    dsimp only
    by_cases hstate : r.1.helper.state = true
    · rw [if_pos hstate]
      refine Eq.trans ?_ (if_pos hstate).symm
      rw [hstages]
      rfl
    · rw [if_neg hstate]
      refine Eq.trans ?_ (if_neg hstate).symm
      exact follows_sectionStages o r.1 r.2

/-- What the loop leaves of a file is what is left after some lines. -/
theorem parseHelper_run (o : Rules) {fuel : ℕ} {scanner : Scanner} {line : Text} {m : Memory} {ini : IniSection}
    (h : parseHelper o fuel scanner line m.helper = some (.done ini)) :
    ∃ lines, ∃ m' ∈ run o m lines, ini = m'.helper.finish o := by
  induction fuel generalizing scanner line m with
  | zero => cases h
  | succ fuel ih =>
    rw [parseHelper] at h
    split at h
    · cases h
      exact ⟨[], m, List.mem_cons_self, rfl⟩
    split at h
    next => cases h
    next read scanner' hget =>
      split at h
      next => cases h
      next h' rest hline =>
        rw [← parseLine_helper] at hline
        obtain ⟨⟨m', rest'⟩, hm', heq⟩ := Option.map_eq_some_iff.mp hline
        obtain ⟨rfl, rfl⟩ := Prod.mk.inj heq
        obtain ⟨lines, m'', hmem, hini⟩ := ih h
        refine ⟨read :: lines, m'', ?_, hini⟩
        rw [run, hm']
        exact List.mem_cons_of_mem m (List.mem_append_right _ hmem)

end Memory

end YastCore.Ini
