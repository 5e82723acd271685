import YastCore.Ini.Index

/-!
# What is changed is dirty

The parser saves a tree only if `isDirty` of its root says so. Every operation that changes what would be
written marks a section on its way, except for a list of comments or types of values that is given up
halfway.
-/

namespace YastCore.Ini

open Lines

/-! ### What is written -/

/-- The fields that `write_helper` reads. -/
inductive View where
  | value (name comment : Text) (read_by : Int32) (val : Text)
  | section (name comment end_comment : Text) (read_by rewrite_by : Int32) (container : List View)

mutual

def viewElement : Element → View
  | .value e => .value e.name e.comment e.read_by e.val
  | .section s => view s

def view : SectionOf Element → View
  | s => .section s.name s.comment s.end_comment s.read_by s.rewrite_by (viewContainer s.container)

def viewContainer : List (Nat × Element) → List View
  | [] => []
  | x :: container => viewElement x.2 :: viewContainer container

end

lemma view_eq (s : IniSection) :
    view s = .section s.name s.comment s.end_comment s.read_by s.rewrite_by (viewContainer s.container) := by
  cases s
  rfl

lemma viewContainer_eq (container : List (Nat × Element)) :
    viewContainer container = container.map fun x => viewElement x.2 := by
  induction container with
  | nil => rfl
  | cons x container ih => rw [viewContainer, ih, List.map_cons]

/-! ### Dirty sections -/

lemma mem_dirtyIds {container : List (Nat × Element)} {id : Nat} :
    id ∈ dirtyIds container ↔ ∃ t, (id, Element.section t) ∈ container ∧ isDirty t = true := by
  induction container with
  | nil => simp [dirtyIds]
  | cons x container ih =>
    obtain ⟨i, y⟩ := x
    cases y with
    | value e => simp [dirtyIds, isDirtyElement, ih]
    | «section» u =>
      by_cases hu : isDirty u
      · simp only [dirtyIds, isDirtyElement, hu, if_true, List.mem_cons, ih, Prod.mk.injEq]
        constructor
        · rintro (rfl | ⟨t, ht, hd⟩)
          · exact ⟨u, .inl ⟨rfl, rfl⟩, hu⟩
          · exact ⟨t, .inr ht, hd⟩
        · rintro ⟨t, ⟨rfl, heq⟩ | ht, hd⟩
          · exact .inl rfl
          · exact .inr ⟨t, ht, hd⟩
      · simp only [dirtyIds, isDirtyElement, hu, Bool.false_eq_true, if_false, List.mem_cons, ih, Prod.mk.injEq]
        constructor
        · rintro ⟨t, ht, hd⟩
          exact ⟨t, .inr ht, hd⟩
        · rintro ⟨t, ⟨rfl, heq⟩ | ht, hd⟩
          · cases heq
            exact absurd hd hu
          · exact ⟨t, ht, hd⟩

/-- A tree is dirty if its root is, or a section that the multimap leads to. -/
lemma isDirty_iff {s : IniSection} : isDirty s = true ↔ s.dirty = true ∨
    ∃ k id t, (k, id) ∈ s.isections ∧ (id, Element.section t) ∈ s.container ∧ isDirty t = true := by
  have heq : isDirty s = (s.dirty || s.isections.any fun e => (dirtyIds s.container).contains e.2) := by
    cases s
    rfl
  rw [heq, Bool.or_eq_true, List.any_eq_true]
  refine or_congr Iff.rfl ⟨?_, ?_⟩
  · rintro ⟨⟨k, id⟩, he, hid⟩
    rw [List.contains_iff_mem] at hid
    obtain ⟨t, ht, hd⟩ := mem_dirtyIds.mp hid
    exact ⟨k, id, t, he, ht, hd⟩
  · rintro ⟨k, id, t, he, ht, hd⟩
    refine ⟨(k, id), he, ?_⟩
    rw [List.contains_iff_mem]
    exact mem_dirtyIds.mpr ⟨t, ht, hd⟩

/-- After a change the tree is dirty, or nothing has happened to it. -/
structure Tracked (s s' : IniSection) : Prop where
  distinct : Everywhere Distinct s'
  clean : isDirty s' = false → isDirty s = false ∧ view s' = view s

lemma Tracked.refl {s : IniSection} (h : Everywhere Distinct s) : Tracked s s :=
  ⟨h, fun hs => ⟨hs, rfl⟩⟩

lemma Tracked.trans {s s' s'' : IniSection} (h : Tracked s s') (h' : Tracked s' s'') : Tracked s s'' := by
  refine ⟨h'.distinct, fun hs => ?_⟩
  obtain ⟨hs', hview'⟩ := h'.clean hs
  obtain ⟨hs, hview⟩ := h.clean hs'
  exact ⟨hs, hview'.trans hview⟩

lemma Tracked.of_dirty {s s' : IniSection} (h : Everywhere Distinct s') (hd : s'.dirty = true) : Tracked s s' := by
  refine ⟨h, fun hs => ?_⟩
  rw [isDirty_iff.mpr (.inl hd)] at hs
  cases hs

/-! ### The elementary changes -/

namespace SectionOf

variable {o : Options} {s : IniSection} {k : Text} {id : Nat}

lemma distinct_named : Everywhere Distinct (IniSection.named k) :=
  .intro List.nodup_nil fun _ _ hmem => absurd hmem List.not_mem_nil

lemma distinct_pushValue (h : Everywhere Distinct s) (e : IniEntry) : Everywhere Distinct (s.pushValue k e) :=
  .intro (Slots.nodup_push h.here _) (h.inside.push_value e)

lemma distinct_pushSection (h : Everywhere Distinct s) {t : IniSection} (ht : Everywhere Distinct t) :
    Everywhere Distinct (s.pushSection o k t) :=
  .intro (Slots.nodup_push h.here _)
    (h.inside.push_section ((everywhere_copySection o ht).mono fun _ hi => hi.distinct))

lemma distinct_eraseValue (h : Everywhere Distinct s) : Everywhere Distinct (s.eraseValue id) :=
  .intro (Slots.nodup_erase h.here id) (h.inside.erase id)

lemma distinct_eraseSection (h : Everywhere Distinct s) : Everywhere Distinct (s.eraseSection id) :=
  .intro (Slots.nodup_erase h.here id) (h.inside.erase id)

lemma distinct_replace {x : Element} (h : Everywhere Distinct s)
    (hx : Below Distinct (Slots.replace id x s.container)) : Everywhere Distinct (s.replace id x) := by
  refine .intro ?_ hx
  rw [Distinct, replace, Slots.map_fst_replace]
  exact h.here

lemma distinct_delValues (ids : List Nat) (h : Everywhere Distinct s) :
    Everywhere Distinct (ids.foldl delValue1 s) := by
  induction ids generalizing s with
  | nil => exact h
  | cons id ids ih => exact ih (everywhere_congr (distinct_eraseValue h) (Slots.nodup_erase h.here id) rfl)

lemma distinct_delSections (ids : List Nat) (h : Everywhere Distinct s) :
    Everywhere Distinct (ids.foldl delSection1 s) := by
  induction ids generalizing s with
  | nil => exact h
  | cons id ids ih => exact ih (everywhere_congr (distinct_eraseSection h) (Slots.nodup_erase h.here id) rfl)

lemma dirty_delValues (ids : List Nat) (h : s.dirty = true) : (ids.foldl delValue1 s).dirty = true := by
  induction ids generalizing s with
  | nil => exact h
  | cons id ids ih => exact ih rfl

lemma dirty_delSections (ids : List Nat) (h : s.dirty = true) : (ids.foldl delSection1 s).dirty = true := by
  induction ids generalizing s with
  | nil => exact h
  | cons id ids ih => exact ih rfl

lemma tracked_delValues (ids : List Nat) (h : Everywhere Distinct s) : Tracked s (ids.foldl delValue1 s) := by
  cases ids with
  | nil => exact .refl h
  | cons id ids =>
    have hdel := distinct_delValues (id :: ids) h
    exact .of_dirty hdel (dirty_delValues ids rfl)

lemma tracked_delSections (ids : List Nat) (h : Everywhere Distinct s) :
    Tracked s (ids.foldl delSection1 s) := by
  cases ids with
  | nil => exact .refl h
  | cons id ids =>
    have hdel := distinct_delSections (id :: ids) h
    exact .of_dirty hdel (dirty_delSections ids rfl)

/-- A section that is added is dirty, and the multimap leads to it. -/
lemma tracked_pushNamed (h : Everywhere Distinct s) : Tracked s (s.pushSection o k (.named k)) := by
  refine ⟨distinct_pushSection h distinct_named, fun hs => ?_⟩
  have hd : isDirty (s.pushSection o k (.named k)) = true := by
    refine isDirty_iff.mpr (.inr ⟨k, Slots.fresh s.container, copySection o (IniSection.named k), ?_, ?_, ?_⟩)
    · exact List.mem_append_right _ List.mem_cons_self
    · exact Slots.mem_push.mpr (.inr rfl)
    · exact isDirty_iff.mpr (.inl rfl)
  rw [hd] at hs
  cases hs

/-- A change of a section below is seen from above. -/
lemma tracked_replaceSection {t t' : IniSection} (h : Everywhere Distinct s)
    (ht : Assoc.find id s.container = some (.section t)) (hid : ∃ k, (k, id) ∈ s.isections)
    (htrack : Tracked t t') : Tracked s (s.replace id (.section t')) := by
  have hmem := Slots.mem_of_find ht
  refine ⟨distinct_replace h (h.inside.replace_section htrack.distinct), fun hs => ?_⟩
  have hclean : ¬ isDirty (s.replace id (.section t')) = true := by simp [hs]
  rw [isDirty_iff] at hclean
  push Not at hclean
  obtain ⟨hbase, hsections⟩ := hclean
  have ht' : isDirty t' = false := by
    obtain ⟨k, hk⟩ := hid
    have hnew : (id, Element.section t') ∈ Slots.replace id (.section t') s.container :=
      List.mem_map.mpr ⟨_, hmem, if_pos rfl⟩
    simpa using hsections k id t' hk hnew
  obtain ⟨ht0, hview⟩ := htrack.clean ht'
  constructor
  · by_contra hdirty
    rw [Bool.not_eq_false, isDirty_iff] at hdirty
    rcases hdirty with hdirty | ⟨k, i, u, hk, hu, hdirty⟩
    · exact hbase hdirty
    · by_cases hi : i = id
      · subst hi
        cases Slots.mem_unique h.here hu hmem
        rw [ht0] at hdirty
        cases hdirty
      · have hnew : (i, Element.section u) ∈ Slots.replace id (.section t') s.container :=
          List.mem_map.mpr ⟨_, hu, if_neg hi⟩
        exact hsections k i u hk hnew hdirty
  · rw [view_eq, view_eq, viewContainer_eq, viewContainer_eq]
    have hsame : (Slots.replace id (.section t') s.container).map (fun x => viewElement x.2) =
        s.container.map fun x => viewElement x.2 := by
      rw [Slots.replace, List.map_map]
      refine List.map_congr_left fun x hx => ?_
      by_cases hxid : x.1 = id
      · have hxt : x.2 = .section t := Slots.mem_unique h.here (hxid ▸ hx) hmem
        rw [Function.comp_apply, if_pos hxid, hxt]
        exact hview
      · rw [Function.comp_apply, if_neg hxid]
    exact congrArg (View.section s.name s.comment s.end_comment s.read_by s.rewrite_by) hsame

lemma tracked_descend {f : IniSection → Option Outcome} {r : Outcome} (h : Everywhere Distinct s)
    (hid : ∃ k, (k, id) ∈ s.isections)
    (hf : ∀ t r, Assoc.find id s.container = some (.section t) → Everywhere Distinct t → f t = some r →
      Tracked t r.tree)
    (hr : s.descend id f = some r) : Tracked s r.tree := by
  unfold descend at hr
  split at hr
  next t ht =>
    obtain ⟨q, hq, rfl⟩ := Option.map_eq_some_iff.mp hr
    exact tracked_replaceSection h ht hid (hf t q ht (h.inside id t (Slots.mem_of_find ht)) hq)
  next => cases hr

lemma tracked_lastSection (h : Everywhere Distinct s) :
    Tracked s (s.lastSection o k).1 ∧ ∃ k', (k', (s.lastSection o k).2) ∈ (s.lastSection o k).1.isections := by
  unfold lastSection
  split
  next id hid => exact ⟨.refl h, k, Slots.mem_equalRange.mp (List.mem_of_getLast? hid)⟩
  next => exact ⟨tracked_pushNamed h, k, List.mem_append_right _ List.mem_cons_self⟩

/-! ### Values -/

lemma distinct_setMyLoop {what : ValueProp} (props : List YCPValue) (ids : List Nat) {r : Outcome}
    (h : Everywhere Distinct s) (hr : setMyLoop o what k props ids s = some r) : Everywhere Distinct r.tree := by
  induction props generalizing ids s with
  | nil =>
    cases hr
    have hdel := distinct_delValues ids h
    exact everywhere_congr hdel hdel.here rfl
  | cons prop props ih =>
    cases ids with
    | nil =>
      rw [setMyLoop] at hr
      split at hr
      · cases hr
      · split at hr
        · cases hr
          exact h
        · exact ih [] (distinct_pushValue h _) hr
    | cons id ids =>
      rw [setMyLoop] at hr
      split at hr
      · cases hr
      · split at hr
        · split at hr
          · cases hr
            exact h
          · exact ih ids (distinct_replace h (h.inside.replace_value _)) hr
        · cases hr

lemma distinct_setMyValue {component : Text} {v : YCPValue} {what : ValueProp} {r : Outcome}
    (h : Everywhere Distinct s) (hr : s.setMyValue o component v what = some r) : Everywhere Distinct r.tree := by
  unfold setMyValue at hr
  dsimp only at hr
  split at hr
  · cases hr
    exact h
  · exact distinct_setMyLoop _ _ h hr

lemma dirty_setMyLoop {what : ValueProp} (props : List YCPValue) (ids : List Nat) {r : Outcome}
    (hr : setMyLoop o what k props ids s = some r) (hok : r.ok = true) : r.tree.dirty = true := by
  induction props generalizing ids s with
  | nil =>
    cases hr
    rfl
  | cons prop props ih =>
    cases ids with
    | nil =>
      rw [setMyLoop] at hr
      split at hr
      · cases hr
      · split at hr
        · cases hr
          cases hok
        · exact ih [] hr
    | cons id ids =>
      rw [setMyLoop] at hr
      split at hr
      · cases hr
      · split at hr
        · split at hr
          · cases hr
            cases hok
          · exact ih ids hr
        · cases hr

/-- Whether a property has the type that it needs. -/
def admissible : ValueProp → YCPValue → Bool
  | .value, _ => true
  | .comment, .string _ => true
  | .type, .integer _ => true
  | _, _ => false

lemma isSome_setProp (what : ValueProp) (e : IniEntry) (prop : YCPValue) :
    (e.setProp o what prop).isSome = admissible what prop := by
  cases what <;> cases prop <;> rfl

/-- The first property cannot be set, or all of them can. -/
def AllOrNothing (what : ValueProp) (values : Nat) (props : List YCPValue) : Prop :=
  what = .value ∨ values = 0 ∨ (∀ prop, props.head? = some prop → admissible what prop = false) ∨
    (props.all (admissible what) = true ∧ props.length ≤ values)

lemma ok_setMyLoop {what : ValueProp} (props : List YCPValue) (ids : List Nat) {r : Outcome}
    (hprops : what = .value ∨ props.all (admissible what) = true ∧ props.length ≤ ids.length)
    (hr : setMyLoop o what k props ids s = some r) : r.ok = true := by
  induction props generalizing ids s with
  | nil =>
    cases hr
    rfl
  | cons prop props ih =>
    cases ids with
    | nil =>
      have hwhat : what = .value := hprops.resolve_right fun h => by simp at h
      rw [setMyLoop] at hr
      split at hr
      · cases hr
      · rw [if_neg (not_not.mpr hwhat)] at hr
        exact ih [] (.inl hwhat) hr
    | cons id ids =>
      rw [setMyLoop] at hr
      split at hr
      · cases hr
      · split at hr
        next e he =>
          have hprop : (e.setProp o what prop).isSome = true := by
            rw [isSome_setProp]
            rcases hprops with rfl | h
            · rfl
            · simp only [List.all_cons, Bool.and_eq_true] at h
              exact h.1.1
          split at hr
          next hnone =>
            rw [hnone] at hprop
            cases hprop
          next =>
            refine ih ids (hprops.imp_right fun h => ?_) hr
            simp only [List.all_cons, Bool.and_eq_true, List.length_cons] at h
            exact ⟨h.1.2, by omega⟩
        next => cases hr

lemma tracked_setMyLoop {what : ValueProp} (props : List YCPValue) (ids : List Nat) {r : Outcome}
    (h : Everywhere Distinct s) (hall : AllOrNothing what ids.length props)
    (hr : setMyLoop o what k props ids s = some r) : Tracked s r.tree := by
  have hdistinct := distinct_setMyLoop props ids h hr
  have hdone : r.ok = true → Tracked s r.tree := fun hok => .of_dirty hdistinct (dirty_setMyLoop props ids hr hok)
  rcases hall with hwhat | hnone | hfirst | hfits
  · exact hdone (ok_setMyLoop props ids (.inl hwhat) hr)
  · cases ids with
    | nil =>
      cases props with
      | nil => exact hdone (by cases hr; rfl)
      | cons prop props =>
        by_cases hwhat : what = .value
        · exact hdone (ok_setMyLoop _ _ (.inl hwhat) hr)
        · rw [setMyLoop] at hr
          split at hr
          · cases hr
          · cases hr
            exact .refl h
    | cons id ids => cases hnone
  · cases props with
    | nil => exact hdone (by cases hr; rfl)
    | cons prop props =>
      have hprop := hfirst prop rfl
      cases ids with
      | nil =>
        have hwhat : what ≠ .value := by
          rintro rfl
          cases hprop
        rw [setMyLoop] at hr
        split at hr
        · cases hr
        · cases hr
          exact .refl h
      | cons id ids =>
        rw [setMyLoop] at hr
        split at hr
        · cases hr
        · split at hr
          next e he =>
            have hnone : e.setProp o what prop = none := by
              rw [← Option.isNone_iff_eq_none, ← Option.isSome_eq_false_iff, isSome_setProp, hprop]
            rw [hnone] at hr
            cases hr
            exact .refl h
          next => cases hr
  · exact hdone (ok_setMyLoop props ids (.inr hfits) hr)

/-- The number of values that a path leads to. -/
def countValues (o : Options) : List Text → IniSection → Nat
  | [], _ => 0
  | [component], s => (Slots.equalRange (changeCase o component) s.ivalues).length
  | component :: path, s =>
    match (Slots.equalRange (changeCase o component) s.isections).getLast? with
    | none => 0
    | some id =>
      match Assoc.find id s.container with
      | some (.section t) => countValues o path t
      | _ => 0

lemma countValues_named (path : List Text) : countValues o path (copySection o (IniSection.named k)) = 0 := by
  cases path with
  | nil => rfl
  | cons component path => cases path <;> rfl

/-- A write of properties of values that is not given up halfway. -/
def WritesAll (o : Options) (s : IniSection) (what : ValueProp) (path : List Text) (v : YCPValue) : Prop :=
  ∀ props, propsOf o v = some props → AllOrNothing what (countValues o path s) props

lemma tracked_setMyValue {component : Text} {v : YCPValue} {what : ValueProp} {r : Outcome}
    (h : Everywhere Distinct s) (hall : WritesAll o s what [component] v)
    (hr : s.setMyValue o component v what = some r) : Tracked s r.tree := by
  unfold setMyValue at hr
  dsimp only at hr
  split at hr
  · cases hr
    exact .refl h
  next props hprops => exact tracked_setMyLoop props _ h (hall props hprops) hr

lemma tracked_setValue {v : YCPValue} {what : ValueProp} (path : List Text) {r : Outcome}
    (h : Everywhere Distinct s) (hall : WritesAll o s what path v) (hr : setValue o v what path s = some r) :
    Tracked s r.tree := by
  induction path generalizing s r with
  | nil =>
    cases hr
    exact .refl h
  | cons component path ih =>
    cases path with
    | nil => exact tracked_setMyValue h hall hr
    | cons c path =>
      have hlast : Tracked s (s.lastSection o (changeCase o component)).1 ∧ _ := tracked_lastSection h
      refine hlast.1.trans (tracked_descend hlast.1.distinct hlast.2 (fun t q ht hdt hq => ?_) hr)
      refine ih hdt (fun props hprops => ?_) hq
      have hprops := hall props hprops
      unfold lastSection at ht
      split at ht
      next id hid =>
        rw [countValues, hid] at hprops
        · dsimp only at hprops ht
          rw [ht] at hprops
          exact hprops
        · simp
      next =>
        have hnew := Slots.mem_unique (Slots.nodup_push h.here _) (Slots.mem_of_find ht)
          (Slots.mem_push.mpr (.inr rfl))
        cases hnew
        exact .inr (.inl (countValues_named _))

/-! ### Sections -/

lemma tracked_setProp {what : SectionProp} {t : IniSection} {prop : YCPValue} (h : Everywhere Distinct s)
    (ht : setProp what s prop = some t) : Tracked s t := by
  unfold setProp at ht
  split at ht <;> cases ht
  · exact .of_dirty (everywhere_congr h h.here rfl) rfl
  · exact .of_dirty (everywhere_congr h h.here rfl) rfl
  · exact .of_dirty (everywhere_congr h h.here rfl) rfl
  · refine ⟨everywhere_congr h h.here rfl, fun hs => ⟨?_, ?_⟩⟩
    · cases s
      exact hs
    · cases s
      rfl

lemma tracked_setSectionLoop {what : SectionProp} (props : List YCPValue) (ids : List Nat) {r : Outcome}
    (h : Everywhere Distinct s) (hids : ∀ id ∈ ids, ∃ k, (k, id) ∈ s.isections)
    (hr : setSectionLoop o what k props ids s = some r) : Tracked s r.tree := by
  induction props generalizing ids s with
  | nil =>
    cases hr
    exact tracked_delSections ids h
  | cons prop props ih =>
    cases ids with
    | nil =>
      rw [setSectionLoop] at hr
      have hpush : Tracked s (s.pushSection o k (.named k)) := tracked_pushNamed h
      split at hr
      · cases hr
      · split at hr
        next =>
          cases hr
          exact hpush
        next t ht =>
          have hfind : Assoc.find (Slots.fresh s.container) (s.pushSection o k (.named k)).container =
              some (.section (copySection o (IniSection.named k))) := find_pushSection h.here _
          have hset : Tracked (copySection o (IniSection.named k)) t := tracked_setProp distinct_named ht
          have hrep := tracked_replaceSection hpush.distinct hfind
            ⟨k, List.mem_append_right _ List.mem_cons_self⟩ hset
          exact (hpush.trans hrep).trans (ih [] hrep.distinct (by simp) hr)
    | cons id ids =>
      rw [setSectionLoop] at hr
      split at hr
      · cases hr
      · split at hr
        next t ht =>
          split at hr
          next =>
            cases hr
            exact .refl h
          next t' ht' =>
            have hset := tracked_setProp (h.inside id t (Slots.mem_of_find ht)) ht'
            have hrep := tracked_replaceSection h ht (hids id List.mem_cons_self) hset
            refine hrep.trans (ih ids hrep.distinct (fun i hi => ?_) hr)
            exact hids i (List.mem_cons_of_mem _ hi)
        next => cases hr

lemma tracked_setSectionProp {v : YCPValue} {what : SectionProp} (path : List Text) {r : Outcome}
    (h : Everywhere Distinct s) (hr : setSectionProp o v what path s = some r) : Tracked s r.tree := by
  induction path generalizing s r with
  | nil =>
    cases hr
    exact .refl h
  | cons component path ih =>
    cases path with
    | nil =>
      rw [setSectionProp] at hr
      split at hr
      · cases hr
        exact .refl h
      · exact tracked_setSectionLoop _ _ h (fun _ hid => ⟨_, Slots.mem_equalRange.mp hid⟩) hr
    | cons c path =>
      have hlast : Tracked s (s.lastSection o (changeCase o component)).1 ∧ _ := tracked_lastSection h
      exact hlast.1.trans (tracked_descend hlast.1.distinct hlast.2 (fun t q _ ht hq => ih ht hq) hr)

lemma tracked_delValue (path : List Text) {r : Outcome} (h : Everywhere Distinct s)
    (hr : delValue o path s = some r) : Tracked s r.tree := by
  induction path generalizing s r with
  | nil =>
    cases hr
    exact .refl h
  | cons component path ih =>
    cases path with
    | nil =>
      cases hr
      exact tracked_delValues _ h
    | cons c path =>
      rw [delValue] at hr
      split at hr
      · cases hr
        exact .refl h
      next id hid =>
        have hmem := Slots.mem_equalRange.mp (List.mem_of_getLast? hid)
        exact tracked_descend h ⟨_, hmem⟩ (fun t q _ ht hq => ih ht hq) hr
      · simp

lemma tracked_delSection (path : List Text) {r : Outcome} (h : Everywhere Distinct s)
    (hr : delSection o path s = some r) : Tracked s r.tree := by
  induction path generalizing s r with
  | nil =>
    cases hr
    exact .refl h
  | cons component path ih =>
    cases path with
    | nil =>
      cases hr
      exact tracked_delSections _ h
    | cons c path =>
      rw [delSection] at hr
      split at hr
      · cases hr
        exact .refl h
      next id hid =>
        have hmem := Slots.mem_equalRange.mp (List.mem_of_getLast? hid)
        exact tracked_descend h ⟨_, hmem⟩ (fun t q _ ht hq => ih ht hq) hr
      · simp

/-! ### Whole sections -/

lemma distinct_setAllDoIt {m : Fields} {r : Outcome} (h : Everywhere Distinct s)
    (hr : setAllDoIt o s m = some r) : Everywhere Distinct r.tree := by
  obtain ⟨file, rfl | ⟨l, c, d, ok, hl, hall, rfl⟩⟩ := setAllDoIt_cases hr
  · exact everywhere_congr h h.here rfl
  · have hsound := sound_setAllItems hall
    exact .intro hsound.1 fun id t hmem => (hsound.2 id t hmem).mono fun _ hi => hi.distinct

lemma dirty_setAllDoIt {m : Fields} {r : Outcome} (hr : setAllDoIt o s m = some r) : r.tree.dirty = true := by
  have hbase : (s.toIniBase.setAllDoIt m).1.dirty = true := by
    unfold IniBase.setAllDoIt
    split
    · rfl
    · split
      · rfl
      · split <;> rfl
  obtain ⟨file, rfl | ⟨l, c, d, ok, hl, hall, rfl⟩⟩ := setAllDoIt_cases hr
  · exact hbase
  · exact hbase

lemma tracked_setAll {v : YCPValue} (path : List Text) {r : Outcome} (h : Everywhere Distinct s)
    (hr : setAll o v path s = some r) : Tracked s r.tree := by
  induction path generalizing s r with
  | nil =>
    obtain ⟨m, -, hr⟩ := setAll_nil hr
    exact .of_dirty (distinct_setAllDoIt h hr) (dirty_setAllDoIt hr)
  | cons component path ih =>
    rw [setAll] at hr
    split at hr
    · cases hr
      exact .refl h
    next id hid =>
      have hmem := Slots.mem_equalRange.mp (List.mem_of_mem_head? hid)
      exact tracked_descend h ⟨_, hmem⟩ (fun t q _ ht hq => ih ht hq) hr

/-! ### Operations -/

/-- The write sets no properties of values, or it does not give up halfway. -/
def Completes (o : Options) (s : IniSection) (p : List Text) (v : YCPValue) : Prop :=
  match p with
  | [] => True
  | c :: path =>
    if o.flat then WritesAll o s (if path.head? = some (ascii "comment") then .comment else .value) [c] v
    else ∀ what, valueWhat c = some what → WritesAll o s what path v

lemma tracked_write {rewrite : Bool} {p : List Text} {v : YCPValue} {r : Outcome} (h : Everywhere Distinct s)
    (hall : Completes o s p v) (hr : s.write o rewrite p v = some r) : Tracked s r.tree := by
  rcases write_cases hr with
    ⟨rfl, -⟩ | ⟨hflat, c, path, rfl, hmy⟩ | ⟨hflat, path, rfl, hset⟩ | ⟨hflat, c, path, rfl, -, -, hset⟩
  · exact .refl h
  · rw [Completes, if_pos hflat] at hall
    exact tracked_setMyValue h hall hmy
  · exact tracked_setAll path h hset
  · rw [Completes, hflat] at hall
    rcases hset with ⟨what, hwhat, hset⟩ | ⟨-, what, hset⟩
    · exact tracked_setValue path h (hall what hwhat) hset
    · exact tracked_setSectionProp path h hset

lemma tracked_delete {p : List Text} {r : Outcome} (h : Everywhere Distinct s)
    (hr : s.delete o p = some r) : Tracked s r.tree := by
  rcases delete_cases hr with ⟨rfl, -⟩ | ⟨-, c, path, rfl, rfl⟩ | ⟨-, c, path, rfl, -, ⟨-, hdel⟩ | ⟨-, -, hdel⟩⟩
  · exact .refl h
  · exact tracked_delValues _ h
  · exact tracked_delValue path h hdel
  · exact tracked_delSection path h hdel

/-- Without repeated names there is one property, which is set or not. -/
lemma completes_of_single (hrepeat : o.repeat_names = false) (p : List Text) (v : YCPValue) :
    Completes o s p v := by
  have hall : ∀ what path, WritesAll o s what path v := by
    intro what path props hprops
    unfold propsOf at hprops
    rw [if_neg (by simp [hrepeat])] at hprops
    cases hprops
    by_cases hcount : countValues o path s = 0
    · exact .inr (.inl hcount)
    · by_cases hv : admissible what v
      · exact .inr (.inr (.inr ⟨by simp [hv], by simp; omega⟩))
      · refine .inr (.inr (.inl fun prop hprop => ?_))
        cases hprop
        simpa using hv
  unfold Completes
  split
  · trivial
  · split
    · exact hall _ _
    · exact fun what _ => hall what _

lemma distinct_descend {f : IniSection → Option Outcome} {r : Outcome} (h : Everywhere Distinct s)
    (hf : ∀ t r, Everywhere Distinct t → f t = some r → Everywhere Distinct r.tree)
    (hr : s.descend id f = some r) : Everywhere Distinct r.tree := by
  unfold descend at hr
  split at hr
  next t ht =>
    obtain ⟨q, hq, rfl⟩ := Option.map_eq_some_iff.mp hr
    exact distinct_replace h (h.inside.replace_section (hf t q (h.inside id t (Slots.mem_of_find ht)) hq))
  next => cases hr

lemma distinct_setValue {v : YCPValue} {what : ValueProp} (path : List Text) {r : Outcome}
    (h : Everywhere Distinct s) (hr : setValue o v what path s = some r) : Everywhere Distinct r.tree := by
  induction path generalizing s r with
  | nil =>
    cases hr
    exact h
  | cons component path ih =>
    cases path with
    | nil => exact distinct_setMyValue h hr
    | cons c path =>
      have hlast : Tracked s (s.lastSection o (changeCase o component)).1 ∧ _ := tracked_lastSection h
      exact distinct_descend hlast.1.distinct (fun t q ht hq => ih ht hq) hr

lemma distinct_write {rewrite : Bool} {p : List Text} {v : YCPValue} {r : Outcome} (h : Everywhere Distinct s)
    (hr : s.write o rewrite p v = some r) : Everywhere Distinct r.tree := by
  rcases write_cases hr with ⟨rfl, -⟩ | ⟨-, c, path, rfl, hmy⟩ | ⟨-, path, rfl, hset⟩ | ⟨-, c, path, rfl, -, -, hset⟩
  · exact h
  · exact distinct_setMyValue h hmy
  · exact (tracked_setAll path h hset).distinct
  · rcases hset with ⟨what, -, hset⟩ | ⟨-, what, hset⟩
    · exact distinct_setValue path h hset
    · exact (tracked_setSectionProp path h hset).distinct

lemma distinct_initValue {key val comment : Text} {rb : Int32} {s' : IniSection} (h : Everywhere Distinct s)
    (hs' : s.initValue o key val comment rb = some s') : Everywhere Distinct s' := by
  unfold initValue at hs'
  dsimp only at hs'
  split at hs'
  · cases hs'
    exact distinct_pushValue h _
  · split at hs' <;> cases hs'
    exact distinct_pushValue (distinct_eraseValue h) _

lemma distinct_initSection {name comment : Text} {rb wb : Int32} {s' : IniSection} (h : Everywhere Distinct s)
    (hs' : s.initSection o name comment rb wb = some s') : Everywhere Distinct s' := by
  have hinit : ∀ {t : IniSection}, Everywhere Distinct t →
      Everywhere Distinct (initialized (changeCase o name) comment rb wb t) :=
    fun ht => everywhere_congr ht ht.here rfl
  unfold initSection at hs'
  dsimp only at hs'
  split at hs'
  · cases hs'
    refine distinct_pushSection h (hinit ?_)
    exact .intro List.nodup_nil fun _ _ hmem => absurd hmem List.not_mem_nil
  · split at hs'
    next id _ _ t ht =>
      cases hs'
      have htd := h.inside _ t (Slots.mem_of_find ht)
      refine distinct_pushSection (distinct_eraseSection h) ?_
      split
      · exact htd
      · exact hinit htd
    · cases hs'

end SectionOf

lemma distinct_clean {s : IniSection} (h : Everywhere Distinct s) : Everywhere Distinct (Ini.clean s) := by
  induction h with
  | @intro s here below ih =>
    rw [clean_eq]
    refine .intro ?_ fun id t hmem => ?_
    · rw [Distinct, cleanContainer_eq, List.map_map]
      exact here
    · have hmem : (id, Element.section t) ∈ cleanContainer s.container := hmem
      rw [cleanContainer_eq] at hmem
      obtain ⟨⟨i, x⟩, hx, heq⟩ := List.mem_map.mp hmem
      cases x with
      | value e => cases heq
      | «section» u =>
        cases heq
        exact ih _ u hx

section

variable {o : Options} {s s' : IniSection}

lemma distinct_atPlace {f : IniSection → Option IniSection} (place : List Nat) (h : Everywhere Distinct s)
    (hf : ∀ t t', Everywhere Distinct t → f t = some t' → Everywhere Distinct t')
    (hs' : SectionOf.atPlace f place s = some s') : Everywhere Distinct s' := by
  induction place generalizing s s' with
  | nil => exact hf s s' h hs'
  | cons id place ih =>
    rw [SectionOf.atPlace] at hs'
    split at hs'
    next t ht =>
      obtain ⟨t', ht', rfl⟩ := Option.map_eq_some_iff.mp hs'
      have hkeep := ih (h.inside id t (Slots.mem_of_find ht)) ht'
      exact SectionOf.distinct_replace h (h.inside.replace_section hkeep)
    · cases hs'

lemma distinct_step (op : Op) (h : Everywhere Distinct s) (hs' : step o s op = some s') :
    Everywhere Distinct s' := by
  cases op with
  | initValue place key val comment rb =>
    exact distinct_atPlace place h (fun _ _ => SectionOf.distinct_initValue) hs'
  | initSection place name comment rb wb =>
    exact distinct_atPlace place h (fun _ _ => SectionOf.distinct_initSection) hs'
  | setEndComment place c =>
    refine distinct_atPlace place h (fun t t' ht ht' => ?_) hs'
    cases ht'
    unfold SectionOf.setEndComment
    split
    · exact SectionOf.everywhere_congr ht ht.here rfl
    · exact SectionOf.everywhere_congr ht ht.here rfl
  | initReadBy place =>
    refine distinct_atPlace place h (fun t t' ht ht' => ?_) hs'
    cases ht'
    exact SectionOf.everywhere_congr ht ht.here rfl
  | clean place =>
    refine distinct_atPlace place h (fun t t' ht ht' => ?_) hs'
    cases ht'
    exact distinct_clean ht
  | setDirty =>
    cases hs'
    exact SectionOf.everywhere_congr h h.here rfl
  | read =>
    cases hs'
    exact h
  | write p v rewrite =>
    obtain ⟨r, hr, rfl⟩ := Option.map_eq_some_iff.mp hs'
    exact SectionOf.distinct_write h hr
  | delete p =>
    obtain ⟨r, hr, rfl⟩ := Option.map_eq_some_iff.mp hs'
    exact (SectionOf.tracked_delete h hr).distinct

lemma distinct_run {ops : List Op} (h : Everywhere Distinct s) (hs' : ops.foldlM (step o) s = some s') :
    Everywhere Distinct s' := by
  induction ops generalizing s with
  | nil =>
    cases hs'
    exact h
  | cons op ops ih =>
    rw [List.foldlM_cons] at hs'
    obtain ⟨t, ht, hs'⟩ := Option.bind_eq_some_iff.mp hs'
    exact ih (distinct_step op h ht) hs'

/-! ### Runs -/

/-- The operations of the agent that are not given up halfway. -/
def Finishes (o : Options) (s : IniSection) : Op → Prop
  | .read => True
  | .write p v _ => SectionOf.Completes o s p v
  | .delete _ => True
  | _ => False

/-- The trees that such operations lead to since the last parsing or saving. -/
inductive Edited (o : Options) (s₀ : IniSection) : IniSection → Prop where
  | refl : Edited o s₀ s₀
  | step {s s' : IniSection} (op : Op) (h : Edited o s₀ s) (hop : Finishes o s op)
    (hs' : step o s op = some s') : Edited o s₀ s'

lemma tracked_step (op : Op) (h : Everywhere Distinct s) (hop : Finishes o s op) (hs' : step o s op = some s') :
    Tracked s s' := by
  cases op with
  | read =>
    cases hs'
    exact .refl h
  | write p v rewrite =>
    obtain ⟨r, hr, rfl⟩ := Option.map_eq_some_iff.mp hs'
    exact SectionOf.tracked_write h hop hr
  | delete p =>
    obtain ⟨r, hr, rfl⟩ := Option.map_eq_some_iff.mp hs'
    exact SectionOf.tracked_delete h hr
  | _ => exact absurd hop id

lemma tracked_edited {s₀ : IniSection} (h₀ : Everywhere Distinct s₀) (h : Edited o s₀ s) : Tracked s₀ s := by
  induction h with
  | refl => exact .refl h₀
  | step op h hop hs' ih => exact ih.trans (tracked_step op ih.distinct hop hs')

/-- From any tree that was reached: if what would be written differs, the root is dirty. -/
theorem isDirty_of_view_ne {s₀ : IniSection} {before : List Op} (h₀ : run o before = some s₀)
    (h : Edited o s₀ s) (hview : view s ≠ view s₀) : isDirty s = true := by
  have hnew : Everywhere Distinct IniSection.new :=
    .intro List.nodup_nil fun _ _ hmem => absurd hmem List.not_mem_nil
  have htrack := tracked_edited (distinct_run hnew h₀) h
  by_contra hclean
  exact hview (htrack.clean (by simpa using hclean)).2

end

/-! ### A list that is given up halfway -/

def Options.repeated : Options := { Options.plain with repeat_names := true }

/-- The file has a key with two values. -/
def parseTwice : List Op :=
  [.initValue [] (ascii "k") (ascii "1") [] 0, .initValue [] (ascii "k") (ascii "2") [] 0]

def treeTwice (comment : Text) (dirty : Bool) : IniSection :=
  { IniSection.new with
    container := [(1, .value ⟨⟨ascii "k", comment, 0, dirty⟩, ascii "1"⟩),
      (2, .value ⟨⟨ascii "k", [], 0, false⟩, ascii "2"⟩)]
    ivalues := [(ascii "k", 1), (ascii "k", 2)] }

def writeComments (second : YCPValue) : Op :=
  .write [ascii "vc", ascii "k"] (.list [.string (ascii "#"), second]) false

theorem isDirty_of_view_ne_comments :
    run .repeated parseTwice = some (treeTwice [] false) ∧
      ∃ s, step .repeated (treeTwice [] false) (writeComments (.string [])) = some s ∧ isDirty s = true := by
  have hall : Finishes .repeated (treeTwice [] false) (writeComments (.string [])) := by
    rintro what hwhat props hprops
    cases hwhat
    cases hprops
    exact .inr (.inr (.inr ⟨rfl, by decide⟩))
  have hparse : run .repeated parseTwice = some (treeTwice [] false) := rfl
  refine ⟨hparse, _, rfl, isDirty_of_view_ne hparse (.step _ .refl hall rfl) fun hview => ?_⟩
  injection hview with _ _ _ _ _ hcontainer
  injection hcontainer with hvalue _
  injection hvalue with _ hcomment _ _
  exact absurd hcomment (by decide)

/-- The first comment is written into the tree, and the tree is not dirty. -/
theorem not_isDirty_comments :
    run .repeated parseTwice = some (treeTwice [] false) ∧
      step .repeated (treeTwice [] false) (writeComments (.integer 5)) = some (treeTwice (ascii "#") true) ∧
      view (treeTwice (ascii "#") true) ≠ view (treeTwice [] false) ∧
      isDirty (treeTwice (ascii "#") true) = false := by
  refine ⟨rfl, rfl, fun hview => ?_, rfl⟩
  injection hview with _ _ _ _ _ hcontainer
  injection hcontainer with hvalue _
  injection hvalue with _ hcomment _ _
  exact absurd hcomment (by decide)

end YastCore.Ini
