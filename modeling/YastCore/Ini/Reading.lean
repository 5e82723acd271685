import YastCore.Ini.Dirty

/-!
# Reading values

`IniSection::getValue` and what it finds after `setValue`. The writer takes the last section with a name
and the reader the first.
-/

namespace YastCore.Ini

open Lines

/-- A property of a value as it is read; the texts are C strings. -/
def IniEntry.prop (what : ValueProp) (e : IniEntry) : YCPValue :=
  match what with
  | .value => .string (cut e.val)
  | .comment => .string (cut e.comment)
  | .type => .integer e.read_by.toInt64

namespace SectionOf

/-- The value that an iterator points to. -/
def entryAt (s : IniSection) (id : Nat) : Option IniEntry :=
  match Assoc.find id s.container with
  | some (.value e) => some e
  | _ => none

/-- The section that an iterator points to. -/
def sectionAt (s : IniSection) (id : Nat) : Option IniSection :=
  match Assoc.find id s.container with
  | some (.section t) => some t
  | _ => none

/-- No result is a crash; inside, none is an error. -/
def getMyValue (o : Options) (s : IniSection) (component : Text) (what : ValueProp) :
    Option (Option YCPValue) :=
  match (Slots.equalRange (changeCase o component) s.ivalues).mapM s.entryAt with
  | none => none
  | some found =>
    let results := found.map (IniEntry.prop what)
    if o.repeat_names then some (some (.list results)) else some results.getLast?

def getValue (o : Options) (what : ValueProp) : List Text → IniSection → Option (Option YCPValue)
  | [], _ => some none
  | [component], s => s.getMyValue o component what
  | component :: path, s =>
    match (Slots.equalRange (changeCase o component) s.isections).head? with
    | none => some none
    | some id =>
      match s.sectionAt id with
      | none => none
      | some t => getValue o what path t

/-! ### Trees without stray iterators -/

/-- Every iterator of the multimaps points to an element of its kind, and no two to the same. -/
structure Linked (s : IniSection) : Prop where
  distinct : Distinct s
  valueIds : (s.ivalues.map Prod.snd).Nodup
  sectionIds : (s.isections.map Prod.snd).Nodup
  values : ∀ e ∈ s.ivalues, ∃ v, (e.2, Element.value v) ∈ s.container
  sections : ∀ e ∈ s.isections, ∃ t, (e.2, Element.section t) ∈ s.container

section

variable {o : Options} {s t : IniSection} {k k' : Text} {id i : Nat} {e : IniEntry} {x : Element}

lemma linked_of_indexed (h : Indexed o s) : Linked s := by
  have hsnd : ∀ {key : Element → Option Text}, ((Slots.entries key s.container).map Prod.snd).Nodup := by
    intro key
    refine List.Nodup.sublist ?_ h.distinct
    induction s.container with
    | nil => exact List.Sublist.refl _
    | cons x container ih =>
      rw [Slots.entries, List.filterMap_cons]
      cases hkey : key x.2 with
      | none => exact ih.cons x.1
      | some k => exact ih.cons_cons x.1
  refine ⟨h.distinct, (h.values.map Prod.snd).nodup_iff.mpr hsnd, (h.sections.map Prod.snd).nodup_iff.mpr hsnd,
    fun e he => ?_, fun e he => ?_⟩
  · obtain ⟨x, hx, hkey⟩ := h.values.mem (k := e.1) he
    cases x with
    | value v => exact ⟨v, hx⟩
    | «section» t => cases hkey
  · obtain ⟨x, hx, hkey⟩ := h.sections.mem (k := e.1) he
    cases x with
    | value v => cases hkey
    | «section» t => exact ⟨t, hx⟩

lemma entryAt_of_mem (h : Linked s) (hid : id ∈ s.ivalues.map Prod.snd) : ∃ e, s.entryAt id = some e := by
  obtain ⟨e, he, rfl⟩ := List.mem_map.mp hid
  obtain ⟨v, hv⟩ := h.values e he
  refine ⟨v, ?_⟩
  rw [entryAt, Slots.find_of_mem h.distinct hv]

lemma sectionAt_of_mem' (h : Linked s) (hid : id ∈ s.isections.map Prod.snd) : ∃ t, s.sectionAt id = some t := by
  obtain ⟨e, he, rfl⟩ := List.mem_map.mp hid
  obtain ⟨t, ht⟩ := h.sections e he
  refine ⟨t, ?_⟩
  rw [sectionAt, Slots.find_of_mem h.distinct ht]

lemma mem_of_equalRange {index : List (Text × Nat)} (h : id ∈ Slots.equalRange k index) :
    id ∈ index.map Prod.snd :=
  List.mem_map.mpr ⟨(k, id), Slots.mem_equalRange.mp h, rfl⟩

/-- Different keys have different iterators. -/
lemma key_unique {index : List (Text × Nat)} (hindex : (index.map Prod.snd).Nodup)
    (h : id ∈ Slots.equalRange k index) (h' : id ∈ Slots.equalRange k' index) : k = k' := by
  have hinj := List.inj_on_of_nodup_map hindex (Slots.mem_equalRange.mp h) (Slots.mem_equalRange.mp h') rfl
  exact congrArg Prod.fst hinj

/-! ### Changing values under one key -/

/-- The sections are as before, and so are the values under the other keys. -/
structure OnlyKey (k : Text) (s s' : IniSection) : Prop where
  isections : s'.isections = s.isections
  sectionAt : ∀ id ∈ s.isections.map Prod.snd, s'.sectionAt id = s.sectionAt id
  others : ∀ k', k' ≠ k → Slots.equalRange k' s'.ivalues = Slots.equalRange k' s.ivalues
  entryAt : ∀ k', k' ≠ k → ∀ id ∈ Slots.equalRange k' s.ivalues, s'.entryAt id = s.entryAt id

lemma OnlyKey.refl (k : Text) (s : IniSection) : OnlyKey k s s :=
  ⟨rfl, fun _ _ => rfl, fun _ _ => rfl, fun _ _ _ _ => rfl⟩

lemma OnlyKey.trans {s' s'' : IniSection} (h : OnlyKey k s s') (h' : OnlyKey k s' s'') : OnlyKey k s s'' := by
  refine ⟨h'.isections.trans h.isections, fun id hid => ?_, fun k' hk => ?_, fun k' hk id hid => ?_⟩
  · rw [h'.sectionAt id (by rwa [h.isections]), h.sectionAt id hid]
  · rw [h'.others k' hk, h.others k' hk]
  · rw [h'.entryAt k' hk id (by rwa [h.others k' hk]), h.entryAt k' hk id hid]

lemma ids_of_values (h : Linked s) (hid : id ∈ s.ivalues.map Prod.snd) : id ∈ s.container.map Prod.fst := by
  obtain ⟨e, he, rfl⟩ := List.mem_map.mp hid
  obtain ⟨v, hv⟩ := h.values e he
  exact List.mem_map.mpr ⟨_, hv, rfl⟩

lemma ids_of_sections (h : Linked s) (hid : id ∈ s.isections.map Prod.snd) :
    id ∈ s.container.map Prod.fst := by
  obtain ⟨e, he, rfl⟩ := List.mem_map.mp hid
  obtain ⟨t, ht⟩ := h.sections e he
  exact List.mem_map.mpr ⟨_, ht, rfl⟩

/-- No iterator points to a value and to a section. -/
lemma values_ne_sections (h : Linked s) (hid : id ∈ s.ivalues.map Prod.snd) (hi : i ∈ s.isections.map Prod.snd) :
    i ≠ id := by
  rintro rfl
  obtain ⟨e, he⟩ := entryAt_of_mem h hid
  obtain ⟨t, ht⟩ := sectionAt_of_mem' h hi
  unfold SectionOf.entryAt at he
  unfold SectionOf.sectionAt at ht
  cases hfind : Assoc.find i s.container with
  | none => simp [hfind] at he
  | some x => cases x <;> simp [hfind] at he ht

lemma ne_of_key (h : Linked s) (hk : k' ≠ k) (hid : id ∈ Slots.equalRange k s.ivalues)
    (hi : i ∈ Slots.equalRange k' s.ivalues) : i ≠ id := by
  rintro rfl
  exact hk (key_unique h.valueIds hi hid)

lemma entryAt_congr {s' : IniSection} (h : Assoc.find id s'.container = Assoc.find id s.container) :
    s'.entryAt id = s.entryAt id := by
  rw [SectionOf.entryAt, h, SectionOf.entryAt]

lemma sectionAt_congr {s' : IniSection} (h : Assoc.find id s'.container = Assoc.find id s.container) :
    s'.sectionAt id = s.sectionAt id := by
  rw [SectionOf.sectionAt, h, SectionOf.sectionAt]

/-! ### Adding a value -/

lemma linked_pushValue (h : Linked s) : Linked (s.pushValue k e) := by
  refine ⟨Slots.nodup_push h.distinct _, ?_, h.sectionIds, fun d hd => ?_, fun d hd => ?_⟩
  · unfold SectionOf.pushValue
    rw [List.map_append, List.map_singleton]
    refine List.Nodup.append h.valueIds (List.nodup_singleton _) ?_
    rw [List.disjoint_singleton]
    exact fun hmem => Slots.fresh_notMem _ (ids_of_values h hmem)
  · rcases List.mem_append.mp hd with hd | hd
    · obtain ⟨v, hv⟩ := h.values d hd
      exact ⟨v, Slots.mem_push.mpr (.inl hv)⟩
    · rw [List.mem_singleton.mp hd]
      exact ⟨e, Slots.mem_push.mpr (.inr rfl)⟩
  · obtain ⟨t, ht⟩ := h.sections d hd
    exact ⟨t, Slots.mem_push.mpr (.inl ht)⟩

lemma range_pushValue : Slots.equalRange k (s.pushValue k e).ivalues =
    Slots.equalRange k s.ivalues ++ [Slots.fresh s.container] := by
  rw [SectionOf.pushValue, Slots.equalRange_append, if_pos rfl]

lemma entryAt_pushValue_of_mem (hid : id ∈ s.container.map Prod.fst) :
    (s.pushValue k e).entryAt id = s.entryAt id :=
  entryAt_congr (Slots.find_push_of_mem hid _)

lemma entryAt_pushValue_fresh (h : Linked s) : (s.pushValue k e).entryAt (Slots.fresh s.container) = some e := by
  rw [SectionOf.entryAt, SectionOf.pushValue, Slots.find_push_fresh]

lemma onlyKey_pushValue (h : Linked s) : OnlyKey k s (s.pushValue k e) := by
  refine ⟨rfl, fun id hid => ?_, fun k' hk => ?_, fun k' hk id hid => ?_⟩
  · exact sectionAt_congr (Slots.find_push_of_mem (ids_of_sections h hid) _)
  · rw [SectionOf.pushValue, Slots.equalRange_append, if_neg (Ne.symm hk), List.append_nil]
  · exact entryAt_pushValue_of_mem (ids_of_values h (mem_of_equalRange hid))

/-! ### Changing a value -/

lemma linked_replaceValue (h : Linked s) (hid : id ∈ s.ivalues.map Prod.snd) :
    Linked (s.replace id (.value e)) := by
  refine ⟨?_, h.valueIds, h.sectionIds, fun d hd => ?_, fun d hd => ?_⟩
  · rw [Distinct, SectionOf.replace, Slots.map_fst_replace]
    exact h.distinct
  · by_cases hd' : d.2 = id
    · refine ⟨e, Slots.mem_of_find ?_⟩
      rw [hd']
      exact Slots.find_replace_self (ids_of_values h hid) _
    · obtain ⟨v, hv⟩ := h.values d hd
      refine ⟨v, Slots.mem_of_find ?_⟩
      rw [SectionOf.replace, Slots.find_replace_of_ne hd', Slots.find_of_mem h.distinct hv]
  · obtain ⟨t, ht⟩ := h.sections d hd
    refine ⟨t, Slots.mem_of_find ?_⟩
    have hne := values_ne_sections h hid (List.mem_map.mpr ⟨d, hd, rfl⟩)
    rw [SectionOf.replace, Slots.find_replace_of_ne hne, Slots.find_of_mem h.distinct ht]

lemma entryAt_replaceValue_self (h : Linked s) (hid : id ∈ s.ivalues.map Prod.snd) :
    (s.replace id (.value e)).entryAt id = some e := by
  rw [SectionOf.entryAt, SectionOf.replace, Slots.find_replace_self (ids_of_values h hid)]

lemma entryAt_replace_of_ne (hne : i ≠ id) : (s.replace id x).entryAt i = s.entryAt i :=
  entryAt_congr (Slots.find_replace_of_ne hne x)

lemma sectionAt_replace_of_ne (hne : i ≠ id) : (s.replace id x).sectionAt i = s.sectionAt i :=
  sectionAt_congr (Slots.find_replace_of_ne hne x)

lemma onlyKey_replaceValue (h : Linked s) (hid : id ∈ Slots.equalRange k s.ivalues) :
    OnlyKey k s (s.replace id (.value e)) := by
  refine ⟨rfl, fun i hi => ?_, fun _ _ => rfl, fun k' hk i hi => ?_⟩
  · exact sectionAt_replace_of_ne (values_ne_sections h (mem_of_equalRange hid) hi)
  · exact entryAt_replace_of_ne (ne_of_key h hk hid hi)

/-! ### Deleting values -/

lemma linked_delValue1 (h : Linked s) (hid : id ∈ s.ivalues.map Prod.snd) : Linked (s.delValue1 id) := by
  refine ⟨Slots.nodup_erase h.distinct id, Slots.nodup_unindex h.valueIds id, h.sectionIds, fun d hd => ?_,
    fun d hd => ?_⟩
  · obtain ⟨hd, hne⟩ := List.mem_filter.mp hd
    obtain ⟨v, hv⟩ := h.values d hd
    exact ⟨v, Slots.mem_erase.mpr ⟨hv, by simpa using hne⟩⟩
  · obtain ⟨t, ht⟩ := h.sections d hd
    exact ⟨t, Slots.mem_erase.mpr ⟨ht, values_ne_sections h hid (List.mem_map.mpr ⟨d, hd, rfl⟩)⟩⟩

lemma entryAt_delValue1_of_ne (hne : i ≠ id) : (s.delValue1 id).entryAt i = s.entryAt i :=
  entryAt_congr (Slots.find_erase_of_ne hne)

lemma onlyKey_delValue1 (h : Linked s) (hid : id ∈ Slots.equalRange k s.ivalues) :
    OnlyKey k s (s.delValue1 id) := by
  refine ⟨rfl, fun i hi => ?_, fun k' hk => ?_, fun k' hk i hi => ?_⟩
  · exact sectionAt_congr (Slots.find_erase_of_ne (values_ne_sections h (mem_of_equalRange hid) hi))
  · rw [SectionOf.delValue1, SectionOf.eraseValue, Slots.equalRange_unindex, List.filter_eq_self]
    intro i hi
    simpa using ne_of_key h hk hid hi
  · exact entryAt_delValue1_of_ne (ne_of_key h hk hid hi)

/-! ### The loop with two cursors -/

def textAt (s : IniSection) (id : Nat) : Option Text := (s.entryAt id).map IniEntry.val

/-- The texts of the values under a key. -/
def textsOf (s : IniSection) (k : Text) : List (Option Text) :=
  (Slots.equalRange k s.ivalues).map s.textAt

lemma textAt_congr {s' : IniSection} (h : s'.entryAt id = s.entryAt id) : s'.textAt id = s.textAt id := by
  rw [textAt, h, textAt]

/-- The iterators that are left when the new list has ended are deleted. -/
lemma spec_delValues {done : List Nat} (ids : List Nat) (h : Linked s)
    (hrange : Slots.equalRange k s.ivalues = done ++ ids) :
    Linked (ids.foldl delValue1 s) ∧ OnlyKey k s (ids.foldl delValue1 s) ∧
      textsOf (ids.foldl delValue1 s) k = done.map s.textAt := by
  induction ids generalizing s with
  | nil =>
    refine ⟨h, OnlyKey.refl k s, ?_⟩
    rw [List.foldl_nil, textsOf, hrange, List.append_nil]
  | cons id ids ih =>
    have hid : id ∈ Slots.equalRange k s.ivalues := by
      rw [hrange]
      exact List.mem_append_right _ List.mem_cons_self
    have hnodup := Slots.nodup_equalRange h.valueIds k
    rw [hrange] at hnodup
    have hdone : ∀ i ∈ done, i ≠ id := by
      rintro i hi rfl
      exact (List.nodup_append.mp hnodup).2.2 i hi i List.mem_cons_self rfl
    have hids : ∀ i ∈ ids, i ≠ id := by
      rintro i hi rfl
      exact (List.nodup_cons.mp (List.nodup_append.mp hnodup).2.1).1 hi
    have hrange' : Slots.equalRange k (s.delValue1 id).ivalues = done ++ ids := by
      have herase : (id :: ids).filter (fun i => i ≠ id) = ids := by
        rw [List.filter_cons_of_neg (by simp), List.filter_eq_self]
        intro i hi
        simpa using hids i hi
      have hkeep : done.filter (fun i => i ≠ id) = done := by
        rw [List.filter_eq_self]
        intro i hi
        simpa using hdone i hi
      rw [delValue1, eraseValue, Slots.equalRange_unindex, hrange, List.filter_append, hkeep, herase]
    obtain ⟨hlinked, honly, htexts⟩ := ih (linked_delValue1 h (mem_of_equalRange hid)) hrange'
    refine ⟨hlinked, (onlyKey_delValue1 h hid).trans honly, ?_⟩
    rw [List.foldl_cons, htexts]
    exact List.map_congr_left fun i hi => textAt_congr (entryAt_delValue1_of_ne (hdone i hi))

/-- The loop leaves the given values, in their order, whatever was there. -/
lemma spec_setMyLoop {done ids : List Nat} (props : List YCPValue) (h : Linked s)
    (hrange : Slots.equalRange k s.ivalues = done ++ ids) {r : Outcome}
    (hr : setMyLoop o .value k props ids s = some r) :
    r.ok = true ∧ Linked r.tree ∧ OnlyKey k s r.tree ∧
      textsOf r.tree k = done.map s.textAt ++ props.map fun prop => some (valueText o prop) := by
  induction props generalizing s done ids with
  | nil =>
    rw [setMyLoop] at hr
    cases hr
    obtain ⟨hlinked, honly, htexts⟩ := spec_delValues ids h hrange
    refine ⟨rfl, ⟨hlinked.distinct, hlinked.valueIds, hlinked.sectionIds, hlinked.values, hlinked.sections⟩,
      ⟨honly.isections, honly.sectionAt, honly.others, honly.entryAt⟩, ?_⟩
    rw [List.map_nil, List.append_nil]
    exact htexts
  | cons prop props ih =>
    cases ids with
    | nil =>
      rw [setMyLoop] at hr
      cases hnull : prop.isNull with
      | true =>
        rw [hnull, if_pos rfl] at hr
        cases hr
      | false =>
        rw [hnull, if_neg Bool.false_ne_true, if_neg (not_not.mpr rfl)] at hr
        rw [List.append_nil] at hrange
        obtain ⟨hok, hlinked, honly, htexts⟩ := ih
          (linked_pushValue h) (by rw [range_pushValue, hrange, List.append_nil]) hr
        refine ⟨hok, hlinked, (onlyKey_pushValue h).trans honly, ?_⟩
        have hold : ∀ i ∈ done, (s.pushValue k { IniEntry.new with
            dirty := true, name := k, val := valueText o prop }).textAt i = s.textAt i := by
          intro i hi
          rw [← hrange] at hi
          exact textAt_congr (entryAt_pushValue_of_mem (ids_of_values h (mem_of_equalRange hi)))
        rw [htexts, List.map_append, List.map_singleton, List.map_congr_left hold, textAt,
          entryAt_pushValue_fresh h, List.append_assoc]
        rfl
    | cons id ids =>
      have hid : id ∈ Slots.equalRange k s.ivalues := by
        rw [hrange]
        exact List.mem_append_right _ List.mem_cons_self
      have hnodup := Slots.nodup_equalRange h.valueIds k
      rw [hrange] at hnodup
      have hdone : ∀ i ∈ done, i ≠ id := by
        rintro i hi rfl
        exact (List.nodup_append.mp hnodup).2.2 i hi i List.mem_cons_self rfl
      rw [setMyLoop] at hr
      cases hnull : prop.isNull with
      | true =>
        rw [hnull, if_pos rfl] at hr
        cases hr
      | false =>
        rw [hnull, if_neg Bool.false_ne_true] at hr
        split at hr
        next e _ =>
          dsimp only [IniEntry.setProp] at hr
          have hsame : Slots.equalRange k (s.replace id (.value { e with
              dirty := true, val := valueText o prop })).ivalues = (done ++ [id]) ++ ids := by
            rw [SectionOf.replace, hrange, List.append_assoc, List.singleton_append]
          obtain ⟨hok, hlinked, honly, htexts⟩ := ih (linked_replaceValue h (mem_of_equalRange hid)) hsame hr
          refine ⟨hok, hlinked, (onlyKey_replaceValue h hid).trans honly, ?_⟩
          have hold : ∀ i ∈ done, (s.replace id (.value { e with
              dirty := true, val := valueText o prop })).textAt i = s.textAt i :=
            fun i hi => textAt_congr (entryAt_replace_of_ne (hdone i hi))
          rw [htexts, List.map_append, List.map_singleton, List.map_congr_left hold, textAt,
            entryAt_replaceValue_self h (mem_of_equalRange hid), List.append_assoc]
          rfl
        · cases hr

lemma spec_setMyValue {component : Text} {v : YCPValue} {props : List YCPValue} {r : Outcome} (h : Linked s)
    (hprops : propsOf o v = some props) (hr : s.setMyValue o component v .value = some r) :
    r.ok = true ∧ Linked r.tree ∧ OnlyKey (changeCase o component) s r.tree ∧
      textsOf r.tree (changeCase o component) = props.map fun prop => some (valueText o prop) := by
  unfold setMyValue at hr
  dsimp only at hr
  rw [hprops] at hr
  have hrange : Slots.equalRange (changeCase o component) s.ivalues =
      [] ++ Slots.equalRange (changeCase o component) s.ivalues := rfl
  exact spec_setMyLoop props h hrange hr

/-! ### Reading -/

lemma mapM_entryAt {ids : List Nat} (h : ∀ id ∈ ids, ∃ e, s.entryAt id = some e) :
    ∃ found, ids.mapM s.entryAt = some found ∧ ids.map s.textAt = found.map fun e => some e.val := by
  induction ids with
  | nil => exact ⟨[], rfl, rfl⟩
  | cons id ids ih =>
    obtain ⟨e, he⟩ := h id List.mem_cons_self
    obtain ⟨found, hfound, htexts⟩ := ih fun i hi => h i (List.mem_cons_of_mem id hi)
    refine ⟨e :: found, ?_, ?_⟩
    · rw [List.mapM_cons, he, hfound]
      rfl
    · rw [List.map_cons, htexts, textAt, he]
      rfl

lemma mapM_congr {f g : Nat → Option IniEntry} {ids : List Nat} (h : ∀ id ∈ ids, f id = g id) :
    ids.mapM f = ids.mapM g := by
  induction ids with
  | nil => rfl
  | cons id ids ih =>
    rw [List.mapM_cons, List.mapM_cons, h id List.mem_cons_self,
      ih fun i hi => h i (List.mem_cons_of_mem id hi)]

/-- What a key reads when the texts of its values are these. -/
lemma getMyValue_of_texts {component : Text} {texts : List Text} (h : Linked s)
    (htexts : textsOf s (changeCase o component) = texts.map some) :
    s.getMyValue o component .value = some (if o.repeat_names
      then some (.list (texts.map fun x => .string (cut x)))
      else (texts.map fun x => .string (cut x)).getLast?) := by
  obtain ⟨found, hfound, hvals⟩ := mapM_entryAt (s := s)
   
    fun id hid => entryAt_of_mem h (mem_of_equalRange hid)
  rw [textsOf, hvals] at htexts
  have hval : found.map IniEntry.val = texts := by
    have hmap := congrArg (List.map fun x : Option Text => x.getD []) htexts
    simpa [List.map_map, Function.comp_def] using hmap
  unfold getMyValue
  rw [hfound, ← hval, List.map_map]
  dsimp only
  cases o.repeat_names with
  | true => rfl
  | false => rfl

lemma getMyValue_congr {component : Text} {what : ValueProp} {s' : IniSection} (hindex : s'.ivalues = s.ivalues)
    (hentry : ∀ id ∈ s.ivalues.map Prod.snd, s'.entryAt id = s.entryAt id) :
    s'.getMyValue o component what = s.getMyValue o component what := by
  unfold getMyValue
  rw [hindex, mapM_congr fun id hid => hentry id (mem_of_equalRange hid)]

/-- Another key reads what it read. -/
lemma getMyValue_onlyKey {component : Text} {what : ValueProp} {s' : IniSection} (h : OnlyKey k s s')
    (hne : changeCase o component ≠ k) : s'.getMyValue o component what = s.getMyValue o component what := by
  unfold getMyValue
  rw [h.others _ hne, mapM_congr (h.entryAt _ hne)]

lemma getValue_cons {what : ValueProp} {component c : Text} {path : List Text} :
    getValue o what (component :: c :: path) s =
      match (Slots.equalRange (changeCase o component) s.isections).head? with
      | none => some none
      | some id =>
        match s.sectionAt id with
        | none => none
        | some t => getValue o what (c :: path) t := rfl

/-- The sections of the trees are the same for a reader. -/
lemma getValue_onlyKey {component c : Text} {path : List Text} {what : ValueProp} {s' : IniSection}
    (h : OnlyKey k s s') :
    getValue o what (component :: c :: path) s' = getValue o what (component :: c :: path) s := by
  rw [getValue_cons, getValue_cons, h.isections]
  cases hid : (Slots.equalRange (changeCase o component) s.isections).head? with
  | none => rfl
  | some id =>
    have hmem := mem_of_equalRange (List.mem_of_head? hid)
    simp only [h.sectionAt id hmem]

/-! ### Descending -/

/-- The values of the section that the writer finds, the last at each level. -/
def lastTexts (o : Options) : List Text → IniSection → Option (List (Option Text))
  | [], _ => none
  | [component], s => some (textsOf s (changeCase o component))
  | component :: path, s =>
    match (Slots.equalRange (changeCase o component) s.isections).getLast? with
    | none => none
    | some id => (s.sectionAt id).bind (lastTexts o path)

lemma lastTexts_cons {component c : Text} {path : List Text} :
    lastTexts o (component :: c :: path) s =
      match (Slots.equalRange (changeCase o component) s.isections).getLast? with
      | none => none
      | some id => (s.sectionAt id).bind (lastTexts o (c :: path)) := rfl

/-- No two sections have the same name on the way. -/
def OneSection (o : Options) : List Text → IniSection → Prop
  | [], _ => True
  | [_], _ => True
  | component :: path, s =>
    (Slots.equalRange (changeCase o component) s.isections).length ≤ 1 ∧
      ∀ id ∈ Slots.equalRange (changeCase o component) s.isections, ∀ t, s.sectionAt id = some t →
        OneSection o path t

lemma oneSection_cons {component c : Text} {path : List Text} :
    OneSection o (component :: c :: path) s ↔
      (Slots.equalRange (changeCase o component) s.isections).length ≤ 1 ∧
        ∀ id ∈ Slots.equalRange (changeCase o component) s.isections, ∀ t, s.sectionAt id = some t →
          OneSection o (c :: path) t := Iff.rfl

/-- A read gives what it gave, or the empty list of a section that was not there. -/
def SameRead (o : Options) (before after : Option (Option YCPValue)) : Prop :=
  after = before ∨ before = some none ∧ o.repeat_names = true ∧ after = some (some (.list []))

variable {c c' component : Text} {path q : List Text} {what : ValueProp} {a b : Option (Option YCPValue)}

lemma SameRead.trans {b' : Option (Option YCPValue)} (h : SameRead o a b) (h' : SameRead o b b') :
    SameRead o a b' := by
  rcases h with rfl | ⟨ha, hrepeat, hb⟩
  · exact h'
  · rcases h' with rfl | ⟨hb', -, -⟩
    · exact .inr ⟨ha, hrepeat, hb⟩
    · rw [hb] at hb'
      cases hb'

lemma everywhere_linked_named (o : Options) (k : Text) : Everywhere Linked (copySection o (IniSection.named k)) :=
  (everywhere_copySection o (everywhere_named.mono fun _ (hi : Indexed o _) => hi.distinct)).mono
    fun _ hi => linked_of_indexed hi

/-- Nothing is found in a section that was just added. -/
lemma getValue_named (q : List Text) : SameRead o (some none) (getValue o what q (copySection o (IniSection.named k))) := by
  match q with
  | [] => exact .inl rfl
  | [component] =>
    have hread : getValue o what [component] (copySection o (IniSection.named k)) =
        some (if o.repeat_names then some (.list []) else none) := by
      unfold getValue getMyValue
      cases o.repeat_names with
      | true => rfl
      | false => rfl
    rw [hread]
    cases hrepeat : o.repeat_names with
    | true => exact .inr ⟨rfl, hrepeat, rfl⟩
    | false => exact .inl rfl
  | component :: c :: path => exact .inl rfl

lemma getLast_length {ids : List Nat} (h : ids.getLast? = some id) (hlen : ids.length ≤ 1) : ids = [id] := by
  match ids with
  | [] => cases h
  | [i] =>
    cases h
    rfl
  | i :: j :: ids => simp at hlen

/-- The first of several iterators is not the last. -/
lemma head_ne_getLast {ids : List Nat} (hnodup : ids.Nodup) (hlen : ¬ ids.length ≤ 1)
    (hhead : ids.head? = some i) (hlast : ids.getLast? = some id) : i ≠ id := by
  match ids with
  | [] => cases hhead
  | [j] => exact absurd (Nat.le_refl 1) hlen
  | j :: j' :: ids =>
    cases hhead
    rw [List.getLast?_cons_cons] at hlast
    rintro rfl
    exact (List.nodup_cons.mp hnodup).1 (List.mem_of_getLast? hlast)

lemma sectionAt_iff (h : Distinct s) : s.sectionAt id = some t ↔ (id, Element.section t) ∈ s.container := by
  constructor
  · intro hat
    unfold SectionOf.sectionAt at hat
    split at hat
    next u hfind =>
      cases hat
      exact Slots.mem_of_find hfind
    next => cases hat
  · intro hmem
    rw [SectionOf.sectionAt, Slots.find_of_mem h hmem]

/-! ### Adding a section -/

lemma everywhere_linked_push (h : Everywhere Linked s) (ht : Everywhere Linked (copySection o t)) :
    Everywhere Linked (s.pushSection o k t) := by
  have hl := h.here
  refine .intro ⟨Slots.nodup_push hl.distinct _, hl.valueIds, ?_, fun d hd => ?_, fun d hd => ?_⟩
    (h.inside.push_section ht)
  · unfold SectionOf.pushSection
    rw [List.map_append, List.map_singleton]
    refine List.Nodup.append hl.sectionIds (List.nodup_singleton _) ?_
    rw [List.disjoint_singleton]
    exact fun hmem => Slots.fresh_notMem _ (ids_of_sections hl hmem)
  · obtain ⟨v, hv⟩ := hl.values d hd
    exact ⟨v, Slots.mem_push.mpr (.inl hv)⟩
  · rcases List.mem_append.mp hd with hd | hd
    · obtain ⟨u, hu⟩ := hl.sections d hd
      exact ⟨u, Slots.mem_push.mpr (.inl hu)⟩
    · rw [List.mem_singleton.mp hd]
      exact ⟨copySection o t, Slots.mem_push.mpr (.inr rfl)⟩

/-- An empty section more changes no read. -/
lemma getValue_pushNamed (h : Linked s) (hnone : Slots.equalRange k s.isections = []) (q : List Text) :
    SameRead o (getValue o what q s) (getValue o what q (s.pushSection o k (.named k))) := by
  have hentry : ∀ id ∈ s.ivalues.map Prod.snd, (s.pushSection o k (.named k)).entryAt id = s.entryAt id :=
    fun id hid => entryAt_congr (Slots.find_push_of_mem (ids_of_values h hid) _)
  match q with
  | [] => exact .inl rfl
  | [component] =>
    exact .inl (getMyValue_congr rfl hentry)
  | component :: c :: path =>
    rw [getValue_cons, getValue_cons, SectionOf.pushSection, Slots.equalRange_append, ← SectionOf.pushSection]
    by_cases hk : k = changeCase o component
    · subst hk
      rw [hnone, if_pos rfl]
      have hat : (s.pushSection o (changeCase o component) (.named (changeCase o component))).sectionAt
          (Slots.fresh s.container) = some (copySection o (IniSection.named (changeCase o component))) := by
        rw [SectionOf.sectionAt, find_pushSection h.distinct]
      simp only [List.nil_append, List.head?_cons, List.head?_nil, hat]
      exact getValue_named _
    · rw [if_neg hk, List.append_nil]
      left
      cases hid : (Slots.equalRange (changeCase o component) s.isections).head? with
      | none => rfl
      | some id =>
        have hmem := ids_of_sections h (mem_of_equalRange (List.mem_of_head? hid))
        have hat : (s.pushSection o k (.named k)).sectionAt id = s.sectionAt id :=
          sectionAt_congr (Slots.find_push_of_mem hmem _)
        simp only [hat]

/-- The section that the writer goes on with. -/
lemma spec_lastSection (h : Everywhere Linked s) (c : Text) :
    Everywhere Linked (s.lastSection o (changeCase o c)).1 ∧
      (Slots.equalRange (changeCase o c) (s.lastSection o (changeCase o c)).1.isections).getLast? =
        some (s.lastSection o (changeCase o c)).2 ∧
      (∀ what q, SameRead o (getValue o what q s) (getValue o what q (s.lastSection o (changeCase o c)).1)) ∧
      ((s.lastSection o (changeCase o c)).1 = s ∨
        ∀ c' path, OneSection o (c :: c' :: path) s ∧
          OneSection o (c :: c' :: path) (s.lastSection o (changeCase o c)).1) := by
  unfold lastSection
  cases hlast : (Slots.equalRange (changeCase o c) s.isections).getLast? with
  | some id => exact ⟨h, hlast, fun what q => .inl rfl, .inl rfl⟩
  | none =>
    have hnone : Slots.equalRange (changeCase o c) s.isections = [] := List.getLast?_eq_none_iff.mp hlast
    have hrange : Slots.equalRange (changeCase o c)
        (s.pushSection o (changeCase o c) (.named (changeCase o c))).isections = [Slots.fresh s.container] := by
      rw [SectionOf.pushSection, Slots.equalRange_append, hnone, if_pos rfl, List.nil_append]
    refine ⟨everywhere_linked_push h (everywhere_linked_named o _), ?_, fun what q => ?_, .inr fun c' path => ⟨?_, ?_⟩⟩
    · rw [hrange]
      rfl
    · exact getValue_pushNamed h.here hnone q
    · rw [oneSection_cons, hnone]
      exact ⟨Nat.zero_le 1, fun id hid => absurd hid List.not_mem_nil⟩
    · rw [oneSection_cons, hrange]
      refine ⟨Nat.le_refl 1, fun id hid t ht => ?_⟩
      rw [List.mem_singleton.mp hid, SectionOf.sectionAt, find_pushSection h.here.distinct] at ht
      cases ht
      cases path with
      | nil => trivial
      | cons d path => exact ⟨Nat.zero_le 1, fun id hid => absurd hid List.not_mem_nil⟩

/-! ### Writing below a section -/

lemma everywhere_linked_replace (h : Everywhere Linked s) (ht : s.sectionAt id = some t) {t' : IniSection}
    (ht' : Everywhere Linked t') : Everywhere Linked (s.replace id (.section t')) := by
  have hl := h.here
  have hmem : id ∈ s.container.map Prod.fst := List.mem_map.mpr ⟨_, (sectionAt_iff hl.distinct).mp ht, rfl⟩
  refine .intro ⟨?_, hl.valueIds, hl.sectionIds, fun d hd => ?_, fun d hd => ?_⟩ (h.inside.replace_section ht')
  · rw [Distinct, SectionOf.replace, Slots.map_fst_replace]
    exact hl.distinct
  · obtain ⟨v, hv⟩ := hl.values d hd
    have hne : d.2 ≠ id := by
      rintro rfl
      cases Slots.mem_unique hl.distinct hv ((sectionAt_iff hl.distinct).mp ht)
    refine ⟨v, Slots.mem_of_find ?_⟩
    rw [SectionOf.replace, Slots.find_replace_of_ne hne, Slots.find_of_mem hl.distinct hv]
  · by_cases hd' : d.2 = id
    · refine ⟨t', Slots.mem_of_find ?_⟩
      rw [hd', SectionOf.replace, Slots.find_replace_self hmem]
    · obtain ⟨u, hu⟩ := hl.sections d hd
      refine ⟨u, Slots.mem_of_find ?_⟩
      rw [SectionOf.replace, Slots.find_replace_of_ne hd', Slots.find_of_mem hl.distinct hu]

lemma sectionAt_replace_self (h : Distinct s) (ht : s.sectionAt id = some t) (t' : IniSection) :
    (s.replace id (.section t')).sectionAt id = some t' := by
  have hmem : id ∈ s.container.map Prod.fst := List.mem_map.mpr ⟨_, (sectionAt_iff h).mp ht, rfl⟩
  rw [SectionOf.sectionAt, SectionOf.replace, Slots.find_replace_self hmem]

/-- The values are not those of the section. -/
lemma getMyValue_replaceSection (h : Linked s) (ht : s.sectionAt id = some t) (t' : IniSection) :
    (s.replace id (.section t')).getMyValue o component what = s.getMyValue o component what := by
  refine getMyValue_congr rfl fun i hi => entryAt_replace_of_ne ?_
  rintro rfl
  obtain ⟨d, hd, hid⟩ := List.mem_map.mp hi
  obtain ⟨v, hv⟩ := h.values d hd
  rw [hid] at hv
  cases Slots.mem_unique h.distinct hv ((sectionAt_iff h.distinct).mp ht)

lemma isections_replace : (s.replace id x).isections = s.isections := rfl

/-- A read that does not go through the section. -/
lemma getValue_replace_other (hne : (Slots.equalRange (changeCase o component) s.isections).head? ≠ some id)
    (t' : IniSection) : getValue o what (component :: c :: path) (s.replace id (.section t')) =
      getValue o what (component :: c :: path) s := by
  rw [getValue_cons, getValue_cons, isections_replace]
  cases hid : (Slots.equalRange (changeCase o component) s.isections).head? with
  | none => rfl
  | some i =>
    have hi : i ≠ id := fun heq => hne (by rw [hid, heq])
    simp only [sectionAt_replace_of_ne hi]

/-- A read that goes through it. -/
lemma getValue_replace_self (h : Distinct s) (ht : s.sectionAt id = some t)
    (hid : (Slots.equalRange (changeCase o component) s.isections).head? = some id) (t' : IniSection) :
    getValue o what (component :: c :: path) (s.replace id (.section t')) = getValue o what (c :: path) t' := by
  rw [getValue_cons, isections_replace, hid]
  simp only [sectionAt_replace_self h ht t']

lemma getValue_through (ht : s.sectionAt id = some t)
    (hid : (Slots.equalRange (changeCase o component) s.isections).head? = some id) :
    getValue o what (component :: c :: path) s = getValue o what (c :: path) t := by
  rw [getValue_cons, hid]
  simp only [ht]

lemma below_setMyLoop {P : IniSection → Prop} (props : List YCPValue) (ids : List Nat) {r : Outcome}
    (h : Below P s.container) (hr : setMyLoop o what k props ids s = some r) : Below P r.tree.container := by
  induction props generalizing s ids with
  | nil =>
    rw [setMyLoop] at hr
    cases hr
    dsimp only
    induction ids generalizing s with
    | nil => exact h
    | cons id ids ih => exact ih (h.erase id)
  | cons prop props ih =>
    cases ids with
    | nil =>
      rw [setMyLoop] at hr
      split at hr
      · cases hr
      · split at hr
        · cases hr
          exact h
        · exact ih [] (h.push_value _) hr
    | cons id ids =>
      rw [setMyLoop] at hr
      split at hr
      · cases hr
      · split at hr
        · split at hr
          · cases hr
            exact h
          · exact ih ids (h.replace_value _) hr
        · cases hr

/-- What a key reads that has these texts. -/
def readTexts (o : Options) (texts : List Text) : Option YCPValue :=
  if o.repeat_names then some (.list (texts.map fun x => .string (cut x)))
  else (texts.map fun x => YCPValue.string (cut x)).getLast?

lemma setValue_cons {v : YCPValue} :
    setValue o v what (component :: c :: path) s =
      (s.lastSection o (changeCase o component)).1.descend (s.lastSection o (changeCase o component)).2
        (setValue o v what (c :: path)) := rfl

/-- A write leaves its texts in the sections that the writer finds and changes no other read; the reader
finds them when there is one section of each name, and otherwise what it found before. -/
theorem spec_setValue {v : YCPValue} {props : List YCPValue} (path : List Text) {r : Outcome} (hpath : path ≠ [])
    (h : Everywhere Linked s) (hprops : propsOf o v = some props) (hr : setValue o v .value path s = some r) :
    (r.ok = true ∧ Everywhere Linked r.tree) ∧
      lastTexts o path r.tree = some (props.map fun prop => some (valueText o prop)) ∧
      (∀ what q, q.map (changeCase o) ≠ path.map (changeCase o) →
        SameRead o (getValue o what q s) (getValue o what q r.tree)) ∧
      (OneSection o path s → getValue o .value path r.tree = some (readTexts o (props.map (valueText o)))) ∧
      (¬ OneSection o path s → getValue o .value path r.tree = getValue o .value path s) := by
  induction path generalizing s r with
  | nil => exact absurd rfl hpath
  | cons c path ih =>
    cases path with
    | nil =>
      rw [setValue] at hr
      obtain ⟨hok, hlinked, honly, htexts⟩ := spec_setMyValue h.here hprops hr
      have hbelow : Below Linked r.tree.container := by
        unfold setMyValue at hr
        dsimp only at hr
        rw [hprops] at hr
        exact below_setMyLoop _ _ h.inside hr
      refine ⟨⟨hok, .intro hlinked hbelow⟩, ?_, fun what q hq => ?_, fun _ => ?_, fun hnot => absurd trivial hnot⟩
      · rw [lastTexts, htexts]
      · left
        match q with
        | [] => rfl
        | [d] => exact getMyValue_onlyKey honly fun heq => hq (by simp [heq])
        | d :: d' :: q => exact getValue_onlyKey honly
      · rw [getValue, getMyValue_of_texts hlinked
          (by rw [htexts, List.map_map]; rfl)]
        rfl
    | cons c' path =>
      obtain ⟨h₁, hlast, hsame, hone⟩ := spec_lastSection (o := o) h c
      rw [setValue_cons] at hr
      generalize (s.lastSection o (changeCase o c)).1 = s₁ at h₁ hlast hsame hone hr
      generalize (s.lastSection o (changeCase o c)).2 = id at hlast hr
      unfold descend at hr
      split at hr
      next t hfind =>
        obtain ⟨r', hr', rfl⟩ := Option.map_eq_some_iff.mp hr
        have hl := h₁.here
        have ht : s₁.sectionAt id = some t := by rw [SectionOf.sectionAt, hfind]
        obtain ⟨⟨hok, hlinked⟩, htexts, hframe, hfound, hmissed⟩ := ih (List.cons_ne_nil c' path)
          (h₁.inside id t (Slots.mem_of_find hfind)) hr'
        refine ⟨⟨hok, everywhere_linked_replace h₁ ht hlinked⟩, ?_, fun what q hq => (hsame what q).trans ?_, ?_, ?_⟩
        · rw [lastTexts_cons, isections_replace, hlast]
          dsimp only
          rw [sectionAt_replace_self hl.distinct ht]
          exact htexts
        · match q with
          | [] => exact .inl rfl
          | [d] => exact .inl (getMyValue_replaceSection hl ht r'.tree)
          | d :: d' :: q =>
            by_cases hhead : (Slots.equalRange (changeCase o d) s₁.isections).head? = some id
            · have hd : changeCase o d = changeCase o c :=
                key_unique hl.sectionIds (List.mem_of_head? hhead) (List.mem_of_getLast? hlast)
              rw [getValue_replace_self hl.distinct ht hhead, getValue_through ht hhead]
              refine hframe what (d' :: q) fun heq => hq ?_
              rw [List.map_cons, hd, heq]
              rfl
            · exact .inl (getValue_replace_other hhead r'.tree)
        · intro hones
          have hones₁ : OneSection o (c :: c' :: path) s₁ := by
            rcases hone with rfl | hone
            · exact hones
            · exact (hone c' path).2
          obtain ⟨hlen, hbelow⟩ := oneSection_cons.mp hones₁
          have hhead : (Slots.equalRange (changeCase o c) s₁.isections).head? = some id := by
            rw [getLast_length hlast hlen, List.head?_cons]
          rw [getValue_replace_self hl.distinct ht hhead]
          exact hfound (hbelow id (List.mem_of_head? hhead) t ht)
        · intro hnot
          rcases hone with rfl | hone
          · by_cases hlen : (Slots.equalRange (changeCase o c) s₁.isections).length ≤ 1
            · have hrange := getLast_length hlast hlen
              have hhead : (Slots.equalRange (changeCase o c) s₁.isections).head? = some id := by
                rw [hrange, List.head?_cons]
              rw [getValue_replace_self hl.distinct ht hhead, getValue_through ht hhead]
              refine hmissed fun hbelow => hnot (oneSection_cons.mpr ⟨hlen, fun i hi u hu => ?_⟩)
              rw [hrange, List.mem_singleton] at hi
              rw [hi, ht] at hu
              cases hu
              exact hbelow
            · refine getValue_replace_other (fun hhead => ?_) r'.tree
              exact head_ne_getLast (Slots.nodup_equalRange hl.sectionIds _) hlen hhead hlast rfl
          · exact absurd (hone c' path).1 hnot
      next => cases hr

/-! ### What is written -/

/-- A string, or a list of them with repeated names, and its texts. -/
inductive Given (o : Options) : YCPValue → List Text → Prop where
  | one (hrepeat : o.repeat_names = false) (x : Text) : Given o (.string x) [x]
  | many (hrepeat : o.repeat_names = true) (xs : List Text) : Given o (.list (xs.map YCPValue.string)) xs

lemma Given.props {v : YCPValue} {texts : List Text} (h : Given o v texts) :
    propsOf o v = some (texts.map YCPValue.string) := by
  cases h with
  | one hrepeat x =>
    unfold propsOf
    rw [hrepeat]
    rfl
  | many hrepeat xs =>
    unfold propsOf
    rw [hrepeat]
    rfl

/-- Texts read back when no NUL ends one before. -/
lemma Given.readTexts_eq {v : YCPValue} {texts : List Text} (h : Given o v texts) :
    readTexts o texts = some v ↔ ∀ x ∈ texts, 0 ∉ x := by
  cases h with
  | one hrepeat x =>
    rw [readTexts, hrepeat, if_neg Bool.false_ne_true]
    simp [cut_eq_self]
  | many hrepeat xs =>
    rw [readTexts, hrepeat, if_pos rfl]
    simp [List.map_inj_left, cut_eq_self]

/-- What is read holds no NUL. -/
lemma Given.nulFree {v : YCPValue} {texts : List Text} (h : Given o v texts) {path : List Text}
    (hread : getValue o .value path s = some (some v)) : ∀ x ∈ texts, 0 ∉ x := by
  induction path generalizing s with
  | nil => cases hread
  | cons component path ih =>
    cases path with
    | nil =>
      rw [getValue] at hread
      unfold getMyValue at hread
      split at hread
      · cases hread
      next found _ =>
        have hcut : ∀ x, YCPValue.string x ∈ found.map (IniEntry.prop .value) → 0 ∉ x := by
          intro x hx
          obtain ⟨e, -, he⟩ := List.mem_map.mp hx
          cases he
          exact zero_not_mem_cut e.val
        cases h with
        | one hrepeat x =>
          simp only [hrepeat, Bool.false_eq_true, if_false, Option.some.injEq] at hread
          intro y hy
          rw [List.mem_singleton.mp hy]
          exact hcut x (List.mem_of_getLast? hread)
        | many hrepeat xs =>
          simp only [hrepeat, if_true, Option.some.injEq, YCPValue.list.injEq] at hread
          intro x hx
          refine hcut x ?_
          rw [hread]
          exact List.mem_map.mpr ⟨x, hx, rfl⟩
    | cons c path =>
      rw [getValue_cons] at hread
      split at hread
      · cases hread
      · split at hread
        · cases hread
        · exact ih hread

end

/-- A write leaves its strings in the section it finds and no other read changes; the strings are read
back when they hold no NUL and no section on the way has a namesake, or when they were read before. -/
theorem setValue_reads_iff (o : Options) (s : IniSection) (path : List Text) (v : YCPValue) (texts : List Text)
    (r : Outcome) (h : Everywhere Linked s) (hpath : path ≠ []) (hgiven : Given o v texts)
    (hr : setValue o v .value path s = some r) :
    (getValue o .value path r.tree = some (some v) ↔
      (OneSection o path s ∧ ∀ x ∈ texts, 0 ∉ x) ∨ getValue o .value path s = some (some v)) ∧
      lastTexts o path r.tree = some (texts.map some) ∧
      ∀ what q, q.map (changeCase o) ≠ path.map (changeCase o) →
        SameRead o (getValue o what q s) (getValue o what q r.tree) := by
  have htext : (texts.map YCPValue.string).map (valueText o) = texts := by
    rw [List.map_map]
    exact List.map_id' texts
  obtain ⟨-, hlast, hframe, hfound, hmissed⟩ := spec_setValue path hpath h hgiven.props hr
  rw [htext] at hfound
  refine ⟨?_, ?_, hframe⟩
  · by_cases hone : OneSection o path s
    · rw [hfound hone, Option.some.injEq, hgiven.readTexts_eq]
      constructor
      · exact fun hnul => .inl ⟨hone, hnul⟩
      · rintro (⟨-, hnul⟩ | hread)
        · exact hnul
        · exact hgiven.nulFree hread
    · rw [hmissed hone]
      exact ⟨.inr, fun hor => hor.resolve_left fun hand => hone hand.1⟩
  · rw [hlast, List.map_map]
    rfl

/-- A list of two values where there was none. -/
theorem setValue_reads_two :
    ∃ r, setValue .repeated (.list [.string [49], .string [50]]) .value [[97]]
        IniSection.new = some r ∧
      getValue .repeated .value [[97]] r.tree =
        some (some (.list [.string [49], .string [50]])) := by
  have hlinked : Everywhere Linked IniSection.new :=
    (everywhere_new (o := .repeated)).mono fun _ hi => linked_of_indexed hi
  refine ⟨_, rfl, ?_⟩
  exact (setValue_reads_iff .repeated IniSection.new [[97]]
    (.list [.string [49], .string [50]]) [[49], [50]] _ hlinked (by simp) (.many rfl [[49], [50]]) rfl).1.mpr
    (.inl ⟨trivial, by decide⟩)

/-- Two sections of one name. -/
def twoSections : IniSection :=
  (IniSection.new.pushSection .repeated [97] (.named [97])).pushSection .repeated [97] (.named [97])

/-- The value is added to the second section and read from the first. -/
theorem setValue_twoSections :
    Everywhere Linked twoSections ∧
      ∃ r, setValue .repeated (.list [.string [49]]) .value [[97], [98]] twoSections = some r ∧ r.ok = true ∧
        getValue .repeated .value [[97], [98]] r.tree = some (some (.list [])) := by
  have hkey : changeCase .repeated (cut [97]) = [97] := by decide
  have hindexed := everywhere_pushNamed (everywhere_pushNamed (everywhere_new (o := .repeated)) hkey) hkey
  exact ⟨hindexed.mono fun _ hi => linked_of_indexed hi, _, rfl, rfl, rfl⟩

end SectionOf

end YastCore.Ini
