import YastCore.Ini.Reading

/-!
# Iterators over a run

No operation of the parser or of the agent leaves a stray iterator in a multimap, whatever names it is given:
only the keys of an index can go wrong.
-/

namespace YastCore.Ini

open Lines

namespace SectionOf

/-! ### Elementary changes -/

section

variable {o : Options} {s s' t : IniSection} {k : Text} {id : Nat} {e : IniEntry}

lemma everywhere_linked_congr (h : Everywhere Linked s) (hc : s'.container = s.container)
    (hv : s'.ivalues = s.ivalues) (hi : s'.isections = s.isections) : Everywhere Linked s' := by
  have hl := h.here
  refine everywhere_congr h ⟨?_, ?_, ?_, ?_, ?_⟩ hc
  · rw [Distinct, hc]
    exact hl.distinct
  · rw [hv]
    exact hl.valueIds
  · rw [hi]
    exact hl.sectionIds
  · rw [hv, hc]
    exact hl.values
  · rw [hi, hc]
    exact hl.sections

lemma everywhere_distinct (h : Everywhere Linked s) : Everywhere Distinct s := h.mono fun _ hl => hl.distinct

lemma everywhere_linked_copy (o : Options) (h : Everywhere Distinct s) : Everywhere Linked (copySection o s) :=
  (everywhere_copySection o h).mono fun _ hi => linked_of_indexed hi

lemma everywhere_linked_new : Everywhere Linked IniSection.new :=
  (everywhere_new (o := Options.plain)).mono fun _ hi => linked_of_indexed hi

lemma valueAt_of_linked (h : Linked s) (hid : id ∈ Slots.equalRange k s.ivalues) : s.ValueAt id := by
  obtain ⟨v, hv⟩ := h.values _ (Slots.mem_equalRange.mp hid)
  intro x hx
  exact ⟨v, Slots.mem_unique h.distinct hx hv⟩

lemma sectionAt_of_linked (h : Linked s) (hid : id ∈ Slots.equalRange k s.isections) : s.SectionAt id := by
  obtain ⟨t, ht⟩ := h.sections _ (Slots.mem_equalRange.mp hid)
  intro x hx
  exact ⟨t, Slots.mem_unique h.distinct hx ht⟩

lemma everywhere_linked_pushValue (h : Everywhere Linked s) : Everywhere Linked (s.pushValue k e) :=
  .intro (linked_pushValue h.here) (h.inside.push_value e)

lemma everywhere_linked_eraseValue (h : Everywhere Linked s) (hid : s.ValueAt id) :
    Everywhere Linked (s.eraseValue id) := by
  have hl := h.here
  refine .intro ⟨Slots.nodup_erase hl.distinct id, Slots.nodup_unindex hl.valueIds id, hl.sectionIds,
    fun d hd => ?_, fun d hd => ?_⟩ (h.inside.erase id)
  · obtain ⟨hd, hne⟩ := List.mem_filter.mp hd
    obtain ⟨v, hv⟩ := hl.values d hd
    exact ⟨v, Slots.mem_erase.mpr ⟨hv, of_decide_eq_true hne⟩⟩
  · obtain ⟨t, ht⟩ := hl.sections d hd
    refine ⟨t, Slots.mem_erase.mpr ⟨ht, ?_⟩⟩
    rintro rfl
    obtain ⟨e, he⟩ := hid _ ht
    cases he

lemma everywhere_linked_eraseSection (h : Everywhere Linked s) (hid : s.SectionAt id) :
    Everywhere Linked (s.eraseSection id) := by
  have hl := h.here
  refine .intro ⟨Slots.nodup_erase hl.distinct id, hl.valueIds, Slots.nodup_unindex hl.sectionIds id,
    fun d hd => ?_, fun d hd => ?_⟩ (h.inside.erase id)
  · obtain ⟨v, hv⟩ := hl.values d hd
    refine ⟨v, Slots.mem_erase.mpr ⟨hv, ?_⟩⟩
    rintro rfl
    obtain ⟨t, ht⟩ := hid _ hv
    cases ht
  · obtain ⟨hd, hne⟩ := List.mem_filter.mp hd
    obtain ⟨t, ht⟩ := hl.sections d hd
    exact ⟨t, Slots.mem_erase.mpr ⟨ht, of_decide_eq_true hne⟩⟩

lemma everywhere_linked_replaceValue {e' : IniEntry} (h : Everywhere Linked s)
    (he : Assoc.find id s.container = some (.value e)) : Everywhere Linked (s.replace id (.value e')) := by
  have hl := h.here
  have hmem := Slots.mem_of_find he
  refine .intro ⟨?_, hl.valueIds, hl.sectionIds, fun d hd => ?_, fun d hd => ?_⟩ (h.inside.replace_value e')
  · rw [Distinct, SectionOf.replace, Slots.map_fst_replace]
    exact hl.distinct
  · obtain ⟨v, hv⟩ := hl.values d hd
    by_cases hne : d.2 = id
    · refine ⟨e', Slots.mem_of_find ?_⟩
      rw [hne, SectionOf.replace, Slots.find_replace_self (List.mem_map.mpr ⟨_, hmem, rfl⟩)]
    · refine ⟨v, Slots.mem_of_find ?_⟩
      rw [SectionOf.replace, Slots.find_replace_of_ne hne, Slots.find_of_mem hl.distinct hv]
  · obtain ⟨t, ht⟩ := hl.sections d hd
    have hne : d.2 ≠ id := by
      rintro rfl
      cases Slots.mem_unique hl.distinct ht hmem
    refine ⟨t, Slots.mem_of_find ?_⟩
    rw [SectionOf.replace, Slots.find_replace_of_ne hne, Slots.find_of_mem hl.distinct ht]

lemma everywhere_linked_replaceSection (h : Everywhere Linked s)
    (ht : Assoc.find id s.container = some (.section t)) {t' : IniSection} (ht' : Everywhere Linked t') :
    Everywhere Linked (s.replace id (.section t')) := by
  have hat : s.sectionAt id = some t := by rw [SectionOf.sectionAt, ht]
  exact everywhere_linked_replace h hat ht'

/-! ### What the parser calls -/

lemma linked_initValue {key val comment : Text} {rb : Int32} (h : Everywhere Linked s)
    (hs' : s.initValue o key val comment rb = some s') : Everywhere Linked s' := by
  unfold initValue at hs'
  dsimp only at hs'
  split at hs'
  · cases hs'
    exact everywhere_linked_pushValue h
  · split at hs' <;> cases hs'
    next e he =>
      refine everywhere_linked_pushValue (everywhere_linked_eraseValue h ?_)
      exact fun x hx => ⟨e, Slots.mem_unique h.here.distinct hx (Slots.mem_of_find he)⟩

lemma everywhere_distinct_initialized {comment : Text} {rb wb : Int32} (h : Everywhere Distinct t) :
    Everywhere Distinct (initialized k comment rb wb t) := everywhere_congr h h.here rfl

lemma linked_initSection {name comment : Text} {rb wb : Int32} (h : Everywhere Linked s)
    (hs' : s.initSection o name comment rb wb = some s') : Everywhere Linked s' := by
  unfold initSection at hs'
  dsimp only at hs'
  split at hs'
  · cases hs'
    refine everywhere_linked_push h (everywhere_linked_copy o (everywhere_distinct_initialized ?_))
    exact everywhere_distinct everywhere_linked_new
  · split at hs' <;> cases hs'
    next t ht =>
      have htd := everywhere_distinct (h.inside _ t (Slots.mem_of_find ht))
      refine everywhere_linked_push (everywhere_linked_eraseSection h ?_) (everywhere_linked_copy o ?_)
      · exact fun x hx => ⟨t, Slots.mem_unique h.here.distinct hx (Slots.mem_of_find ht)⟩
      · split
        · exact htd
        · exact everywhere_distinct_initialized htd

/-! ### Writing -/

lemma linked_delValues (ids : List Nat) (h : Everywhere Linked s) (hids : ∀ id ∈ ids, s.ValueAt id) :
    Everywhere Linked (ids.foldl delValue1 s) := by
  induction ids generalizing s with
  | nil => exact h
  | cons id ids ih =>
    have herase := everywhere_linked_eraseValue h (hids id List.mem_cons_self)
    refine ih (everywhere_linked_congr herase rfl rfl rfl) fun i hi => ?_
    exact valueAt_eraseValue (hids i (List.mem_cons_of_mem _ hi))

lemma linked_delSections (ids : List Nat) (h : Everywhere Linked s) (hids : ∀ id ∈ ids, s.SectionAt id) :
    Everywhere Linked (ids.foldl delSection1 s) := by
  induction ids generalizing s with
  | nil => exact h
  | cons id ids ih =>
    have herase := everywhere_linked_eraseSection h (hids id List.mem_cons_self)
    refine ih (everywhere_linked_congr herase rfl rfl rfl) fun i hi => ?_
    exact sectionAt_eraseSection (hids i (List.mem_cons_of_mem _ hi))

lemma linked_setMyLoop {what : ValueProp} (props : List YCPValue) (ids : List Nat) {r : Outcome}
    (h : Everywhere Linked s) (hids : ∀ id ∈ ids, s.ValueAt id) (hr : setMyLoop o what k props ids s = some r) :
    Everywhere Linked r.tree := by
  induction props generalizing ids s with
  | nil =>
    cases hr
    exact everywhere_linked_congr (linked_delValues ids h hids) rfl rfl rfl
  | cons prop props ih =>
    cases ids with
    | nil =>
      rw [setMyLoop] at hr
      split at hr
      · cases hr
      · split at hr
        · cases hr
          exact h
        · exact ih [] (everywhere_linked_pushValue h) (by simp) hr
    | cons id ids =>
      rw [setMyLoop] at hr
      split at hr
      · cases hr
      · split at hr
        next e he =>
          split at hr
          next =>
            cases hr
            exact h
          next e' he' =>
            refine ih ids (everywhere_linked_replaceValue h he) (fun i hi => ?_) hr
            exact valueAt_replaceValue (hids i (List.mem_cons_of_mem _ hi))
        next => cases hr

lemma linked_setMyValue {component : Text} {v : YCPValue} {what : ValueProp} {r : Outcome}
    (h : Everywhere Linked s) (hr : s.setMyValue o component v what = some r) : Everywhere Linked r.tree := by
  unfold setMyValue at hr
  dsimp only at hr
  split at hr
  · cases hr
    exact h
  · exact linked_setMyLoop _ _ h (fun _ hid => valueAt_of_linked h.here hid) hr

lemma linked_descend {f : IniSection → Option Outcome} {r : Outcome} (h : Everywhere Linked s)
    (hf : ∀ t r, Everywhere Linked t → f t = some r → Everywhere Linked r.tree) (hr : s.descend id f = some r) :
    Everywhere Linked r.tree := by
  unfold descend at hr
  split at hr
  next t ht =>
    obtain ⟨q, hq, rfl⟩ := Option.map_eq_some_iff.mp hr
    exact everywhere_linked_replaceSection h ht (hf t q (h.inside id t (Slots.mem_of_find ht)) hq)
  next => cases hr

lemma linked_lastSection (h : Everywhere Linked s) : Everywhere Linked (s.lastSection o k).1 := by
  unfold lastSection
  split
  · exact h
  · exact everywhere_linked_push h (everywhere_linked_named o k)

lemma linked_setValue {v : YCPValue} {what : ValueProp} (path : List Text) {r : Outcome} (h : Everywhere Linked s)
    (hr : setValue o v what path s = some r) : Everywhere Linked r.tree := by
  induction path generalizing s r with
  | nil =>
    cases hr
    exact h
  | cons component path ih =>
    cases path with
    | nil => exact linked_setMyValue h hr
    | cons c path =>
      have hlast : Everywhere Linked (s.lastSection o (changeCase o component)).1 := linked_lastSection h
      exact linked_descend hlast (fun t q ht hq => ih ht hq) hr

lemma linked_setProp {what : SectionProp} {prop : YCPValue} (h : Everywhere Linked t)
    (ht' : setProp what t prop = some s') : Everywhere Linked s' := by
  unfold setProp at ht'
  split at ht' <;> cases ht'
  all_goals exact everywhere_linked_congr h rfl rfl rfl

lemma linked_setSectionLoop {what : SectionProp} (props : List YCPValue) (ids : List Nat) {r : Outcome}
    (h : Everywhere Linked s) (hids : ∀ id ∈ ids, s.SectionAt id)
    (hr : setSectionLoop o what k props ids s = some r) : Everywhere Linked r.tree := by
  induction props generalizing ids s with
  | nil =>
    cases hr
    exact linked_delSections ids h hids
  | cons prop props ih =>
    cases ids with
    | nil =>
      rw [setSectionLoop] at hr
      have hpush : Everywhere Linked (s.pushSection o k (.named k)) :=
        everywhere_linked_push h (everywhere_linked_named o k)
      split at hr
      · cases hr
      · split at hr
        next =>
          cases hr
          exact hpush
        next t ht =>
          have hnamed : Everywhere Linked (IniSection.named k) :=
            everywhere_linked_congr everywhere_linked_new rfl rfl rfl
          have hreplace := everywhere_linked_replaceSection hpush (find_pushSection h.here.distinct _)
            (linked_setProp hnamed ht)
          exact ih [] hreplace (by simp) hr
    | cons id ids =>
      rw [setSectionLoop] at hr
      split at hr
      · cases hr
      · split at hr
        next t ht =>
          split at hr
          next =>
            cases hr
            exact h
          next t' ht' =>
            have hset := linked_setProp (h.inside id t (Slots.mem_of_find ht)) ht'
            refine ih ids (everywhere_linked_replaceSection h ht hset) (fun i hi => ?_) hr
            exact sectionAt_replaceSection (hids i (List.mem_cons_of_mem _ hi))
        next => cases hr

lemma linked_setSectionProp {v : YCPValue} {what : SectionProp} (path : List Text) {r : Outcome}
    (h : Everywhere Linked s) (hr : setSectionProp o v what path s = some r) : Everywhere Linked r.tree := by
  induction path generalizing s r with
  | nil =>
    cases hr
    exact h
  | cons component path ih =>
    cases path with
    | nil =>
      rw [setSectionProp] at hr
      split at hr
      · cases hr
        exact h
      · exact linked_setSectionLoop _ _ h (fun _ hid => sectionAt_of_linked h.here hid) hr
    | cons c path =>
      have hlast : Everywhere Linked (s.lastSection o (changeCase o component)).1 := linked_lastSection h
      exact linked_descend hlast (fun t q ht hq => ih ht hq) hr

/-- A container whose sections have no stray iterators. -/
def LinkedBelow (container : List (Nat × Element)) : Prop :=
  (container.map Prod.fst).Nodup ∧ Below Linked container

lemma linkedBelow_setAllItems {l : List YCPValue} {q : List (Nat × Element) × List (Text × Int32) × Bool}
    (hq : setAllItems o [] [] l = some q) : LinkedBelow q.1 := by
  have hsound := sound_setAllItems hq
  exact ⟨hsound.1, fun id t hmem => (hsound.2 id t hmem).mono fun _ hi => linked_of_indexed hi⟩

lemma linked_setAll {v : YCPValue} (path : List Text) {r : Outcome} (h : Everywhere Linked s)
    (hr : setAll o v path s = some r) : Everywhere Linked r.tree := by
  induction path generalizing s r with
  | nil =>
    obtain ⟨m, -, hr⟩ := setAll_nil hr
    obtain ⟨file, rfl | ⟨l, c, d, ok, hl, hall, rfl⟩⟩ := setAllDoIt_cases hr
    · exact everywhere_linked_congr h rfl rfl rfl
    · have hbelow := linkedBelow_setAllItems hall
      exact .intro (linked_of_indexed (indexed_reindex hbelow.1)) hbelow.2
  | cons component path ih =>
    rw [setAll] at hr
    split at hr
    · cases hr
      exact h
    · exact linked_descend h (fun t q ht hq => ih ht hq) hr

lemma linked_write {rewrite : Bool} {p : List Text} {v : YCPValue} {r : Outcome} (h : Everywhere Linked s)
    (hr : s.write o rewrite p v = some r) : Everywhere Linked r.tree := by
  rcases write_cases hr with ⟨rfl, -⟩ | ⟨-, c, path, rfl, hmy⟩ | ⟨-, path, rfl, hset⟩ | ⟨-, c, path, rfl, -, -, hset⟩
  · exact h
  · exact linked_setMyValue h hmy
  · exact linked_setAll path h hset
  · rcases hset with ⟨what, -, hset⟩ | ⟨-, what, hset⟩
    · exact linked_setValue path h hset
    · exact linked_setSectionProp path h hset

/-! ### Deleting -/

lemma linked_delValue (path : List Text) {r : Outcome} (h : Everywhere Linked s)
    (hr : delValue o path s = some r) : Everywhere Linked r.tree := by
  induction path generalizing s r with
  | nil =>
    cases hr
    exact h
  | cons component path ih =>
    cases path with
    | nil =>
      cases hr
      exact linked_delValues _ h fun _ hid => valueAt_of_linked h.here hid
    | cons c path =>
      rw [delValue] at hr
      split at hr
      · cases hr
        exact h
      · exact linked_descend h (fun t q ht hq => ih ht hq) hr
      · simp

lemma linked_delSection (path : List Text) {r : Outcome} (h : Everywhere Linked s)
    (hr : delSection o path s = some r) : Everywhere Linked r.tree := by
  induction path generalizing s r with
  | nil =>
    cases hr
    exact h
  | cons component path ih =>
    cases path with
    | nil =>
      cases hr
      exact linked_delSections _ h fun _ hid => sectionAt_of_linked h.here hid
    | cons c path =>
      rw [delSection] at hr
      split at hr
      · cases hr
        exact h
      · exact linked_descend h (fun t q ht hq => ih ht hq) hr
      · simp

lemma linked_delete {p : List Text} {r : Outcome} (h : Everywhere Linked s) (hr : s.delete o p = some r) :
    Everywhere Linked r.tree := by
  rcases delete_cases hr with ⟨rfl, -⟩ | ⟨-, c, path, rfl, rfl⟩ | ⟨-, c, path, rfl, -, ⟨-, hdel⟩ | ⟨-, -, hdel⟩⟩
  · exact h
  · exact linked_delValues _ h fun _ hid => valueAt_of_linked h.here hid
  · exact linked_delValue path h hdel
  · exact linked_delSection path h hdel

/-! ### Runs -/

lemma linked_clean (h : Everywhere Linked s) : Everywhere Linked (Ini.clean s) := by
  induction h with
  | @intro s here below ih =>
    have hids : (cleanContainer s.container).map Prod.fst = s.container.map Prod.fst := by
      rw [cleanContainer_eq, List.map_map]
      rfl
    have hclean : ∀ {i x}, (i, x) ∈ s.container → (i, cleanElement x) ∈ cleanContainer s.container := by
      intro i x hx
      rw [cleanContainer_eq]
      exact List.mem_map.mpr ⟨_, hx, rfl⟩
    rw [clean_eq]
    refine .intro ⟨?_, here.valueIds, here.sectionIds, fun d hd => ?_, fun d hd => ?_⟩ fun id t hmem => ?_
    · rw [Distinct]
      exact hids ▸ here.distinct
    · obtain ⟨v, hv⟩ := here.values d hd
      exact ⟨_, hclean hv⟩
    · obtain ⟨t, ht⟩ := here.sections d hd
      exact ⟨_, hclean ht⟩
    · have hmem : (id, Element.section t) ∈ cleanContainer s.container := hmem
      rw [cleanContainer_eq] at hmem
      obtain ⟨⟨i, x⟩, hx, heq⟩ := List.mem_map.mp hmem
      cases x with
      | value e => cases heq
      | «section» u =>
        cases heq
        exact ih _ u hx

lemma linked_atPlace {f : IniSection → Option IniSection} (place : List Nat) (h : Everywhere Linked s)
    (hf : ∀ t t', Everywhere Linked t → f t = some t' → Everywhere Linked t') (hs' : atPlace f place s = some s') :
    Everywhere Linked s' := by
  induction place generalizing s s' with
  | nil => exact hf s s' h hs'
  | cons id place ih =>
    rw [atPlace] at hs'
    split at hs'
    next t ht =>
      obtain ⟨t', ht', rfl⟩ := Option.map_eq_some_iff.mp hs'
      exact everywhere_linked_replaceSection h ht (ih (h.inside id t (Slots.mem_of_find ht)) ht')
    · cases hs'

lemma linked_step (op : Op) (h : Everywhere Linked s) (hs' : step o s op = some s') : Everywhere Linked s' := by
  cases op with
  | initValue place key val comment rb => exact linked_atPlace place h (fun _ _ => linked_initValue) hs'
  | initSection place name comment rb wb => exact linked_atPlace place h (fun _ _ => linked_initSection) hs'
  | setEndComment place c =>
    refine linked_atPlace place h (fun t t' ht ht' => ?_) hs'
    cases ht'
    unfold setEndComment
    split
    · exact everywhere_linked_congr ht rfl rfl rfl
    · exact everywhere_linked_congr ht rfl rfl rfl
  | initReadBy place =>
    refine linked_atPlace place h (fun t t' ht ht' => ?_) hs'
    cases ht'
    exact everywhere_linked_congr ht rfl rfl rfl
  | clean place =>
    refine linked_atPlace place h (fun t t' ht ht' => ?_) hs'
    cases ht'
    exact linked_clean ht
  | setDirty =>
    cases hs'
    exact everywhere_linked_congr h rfl rfl rfl
  | read =>
    cases hs'
    exact h
  | write p v rewrite =>
    obtain ⟨r, hr, rfl⟩ := Option.map_eq_some_iff.mp hs'
    exact linked_write h hr
  | delete p =>
    obtain ⟨r, hr, rfl⟩ := Option.map_eq_some_iff.mp hs'
    exact linked_delete h hr

/-- No run leaves a stray iterator. -/
lemma linked_run {ops : List Op} (hs : run o ops = some s) : Everywhere Linked s := by
  have hfold : ∀ (ops : List Op) (s₀ : IniSection), Everywhere Linked s₀ → ops.foldlM (step o) s₀ = some s →
      Everywhere Linked s := by
    intro ops
    induction ops with
    | nil =>
      intro s₀ h₀ hs
      cases hs
      exact h₀
    | cons op ops ih =>
      intro s₀ h₀ hs
      rw [List.foldlM_cons] at hs
      obtain ⟨t, ht, hs⟩ := Option.bind_eq_some_iff.mp hs
      exact ih t (linked_step op h₀ ht) hs
  exact hfold ops .new everywhere_linked_new hs

end

end SectionOf

end YastCore.Ini
