import Mathlib.Data.List.Nodup
import YastCore.Modules.Conf

/-!
# The index of the configuration

Every entry of the map has its string in the index once, and `writeFile` finds it there. A comment that
is set for an entry that does not exist creates the entry without a string, and a dot in a directive is
taken for the end of the directive.
-/

namespace YastCore.Modules

open Lines

/-! ### Strings of the index -/

lemma splitIndex_indexString (d m : Text) :
    splitIndex (indexString d m) = (d.takeWhile (· != 46), ((d ++ 46 :: m).dropWhile (· != 46)).drop 1) := by
  have htake : (d ++ 46 :: m).takeWhile (· != 46) = d.takeWhile (· != 46) := by
    induction d with
    | nil => rfl
    | cons c d ih =>
      by_cases hc : c = 46
      · simp [hc]
      · simp [hc, ih]
  exact Prod.ext htake rfl

/-- The directive and the module are found again unless there is a dot in the directive. -/
lemma splitIndex_eq_iff {d m : Text} : splitIndex (indexString d m) = (d, m) ↔ 46 ∉ d := by
  rw [splitIndex_indexString]
  constructor
  · intro h hdot
    have htake : d.takeWhile (· != 46) = d := (Prod.mk.inj h).1
    have hall := List.takeWhile_eq_self_iff.mp htake 46 hdot
    exact absurd hall (by decide)
  · intro hdot
    have hall : ∀ c ∈ d, (c != 46) = true := by
      intro c hc
      exact bne_iff_ne.mpr fun heq => hdot (heq ▸ hc)
    rw [List.takeWhile_eq_self_iff.mpr hall, List.dropWhile_append_of_pos hall]
    simp

lemma indexString_inj {d m d' m' : Text} (hd : 46 ∉ d) (hd' : 46 ∉ d')
    (h : indexString d m = indexString d' m') : d = d' ∧ m = m' := by
  have hsplit := congrArg splitIndex h
  rw [splitIndex_eq_iff.mpr hd, splitIndex_eq_iff.mpr hd'] at hsplit
  exact Prod.mk.inj hsplit

/-! ### What a call does to the map -/

namespace ModulesConf

variable (c : ModulesConf) {d m d' m' : Text}

lemma modules_change (f : ModuleEntry → ModuleEntry) :
    (c.change d m f).modules d' =
      if d = d' then Assoc.insert textLess m (f ((c.moduleEntry d m).getD .default)) (c.modules d)
      else c.modules d' := by
  unfold change modules
  dsimp only
  split
  next heq => rw [heq, Assoc.find_insert_self]; rfl
  next hne => rw [Assoc.find_insert_of_ne textLess hne]

lemma moduleEntry_change_self (f : ModuleEntry → ModuleEntry) :
    (c.change d m f).moduleEntry d m = some (f ((c.moduleEntry d m).getD .default)) := by
  rw [moduleEntry, modules_change, if_pos rfl, Assoc.find_insert_self]

lemma moduleEntry_change_of_ne (h : ¬ (d = d' ∧ m = m')) (f : ModuleEntry → ModuleEntry) :
    (c.change d m f).moduleEntry d' m' = c.moduleEntry d' m' := by
  rw [moduleEntry, modules_change]
  split
  next heq =>
    subst heq
    have hne : m ≠ m' := fun hm => h ⟨rfl, hm⟩
    rw [Assoc.find_insert_of_ne textLess hne]
    rfl
  · rfl

lemma isModule_change (f : ModuleEntry → ModuleEntry) :
    (c.change d m f).isModule d' m' = true ↔ (d = d' ∧ m = m') ∨ c.isModule d' m' = true := by
  by_cases h : d = d' ∧ m = m'
  · obtain ⟨rfl, rfl⟩ := h
    rw [isModule, moduleEntry_change_self]
    simp
  · rw [isModule, moduleEntry_change_of_ne c h]
    simp [isModule, h]

lemma moduleEntry_updateIndex : (c.updateIndex d m).moduleEntry d' m' = c.moduleEntry d' m' := by
  unfold updateIndex
  split
  · rfl
  · rfl

lemma isModule_updateIndex : (c.updateIndex d m).isModule d' m' = c.isModule d' m' := by
  rw [isModule, moduleEntry_updateIndex, isModule]

lemma moduleEntry_removeEntry_self : (c.removeEntry d m).1.moduleEntry d m = none := by
  unfold removeEntry
  dsimp only
  split
  next hnot => simpa [isModule] using hnot
  next =>
    unfold moduleEntry modules
    dsimp only
    split
    · rw [Assoc.find_erase_self]
      rfl
    · rw [Assoc.find_insert_self]
      exact Assoc.find_erase_self m _

lemma moduleEntry_removeEntry_of_ne (h : ¬ (d = d' ∧ m = m')) :
    (c.removeEntry d m).1.moduleEntry d' m' = c.moduleEntry d' m' := by
  unfold removeEntry
  dsimp only
  split
  · rfl
  next =>
    unfold moduleEntry modules
    dsimp only
    by_cases hd : d = d'
    · subst hd
      have hm : m ≠ m' := fun heq => h ⟨rfl, heq⟩
      have hrest := Assoc.find_erase_of_ne hm ((Assoc.find d c.modules_conf_map).getD [])
      split
      next hempty =>
        rw [hempty] at hrest
        rw [Assoc.find_erase_self, ← hrest]
        rfl
      · rw [Assoc.find_insert_self]
        exact hrest
    · split
      · rw [Assoc.find_erase_of_ne hd]
      · rw [Assoc.find_insert_of_ne textLess hd]

lemma isModule_removeEntry :
    (c.removeEntry d m).1.isModule d' m' = true ↔ ¬ (d = d' ∧ m = m') ∧ c.isModule d' m' = true := by
  by_cases h : d = d' ∧ m = m'
  · obtain ⟨rfl, rfl⟩ := h
    rw [isModule, moduleEntry_removeEntry_self]
    simp
  · rw [isModule, moduleEntry_removeEntry_of_ne c h]
    simp [isModule, h]

end ModulesConf

/-! ### The invariant -/

/-- The entries of the map and the strings of the index are the same, and each string leads back to its
entry. -/
structure Indexed (c : ModulesConf) : Prop where
  once : ∀ d m, c.isModule d m = true →
    c.modules_conf_index.count (indexString d m) = 1 ∧ splitIndex (indexString d m) = (d, m)
  only : ∀ s ∈ c.modules_conf_index, ∃ d m, c.isModule d m = true ∧ s = indexString d m

namespace Indexed

variable {c c' : ModulesConf} {d m : Text}

lemma dotless (h : Indexed c) (hmodule : c.isModule d m = true) : 46 ∉ d :=
  splitIndex_eq_iff.mp (h.once d m hmodule).2

/-- A string of the index is that of only one entry. -/
lemma isModule_of_mem (h : Indexed c) (hdot : 46 ∉ d) (hmem : indexString d m ∈ c.modules_conf_index) :
    c.isModule d m = true := by
  obtain ⟨d', m', hmodule, heq⟩ := h.only _ hmem
  obtain ⟨rfl, rfl⟩ := indexString_inj hdot (h.dotless hmodule) heq
  exact hmodule

lemma congr (h : Indexed c) (hmap : ∀ d m, c'.isModule d m = c.isModule d m)
    (hindex : c'.modules_conf_index = c.modules_conf_index) : Indexed c' := by
  refine ⟨fun d m hmodule => ?_, fun s hs => ?_⟩
  · rw [hindex]
    exact h.once d m (hmap d m ▸ hmodule)
  · rw [hindex] at hs
    obtain ⟨d, m, hmodule, heq⟩ := h.only s hs
    exact ⟨d, m, hmap d m ▸ hmodule, heq⟩

/-- An entry that is added to the map and to the index. -/
lemma add_iff (h : Indexed c) (f : ModuleEntry → ModuleEntry) :
    Indexed ((c.updateIndex d m).change d m f) ↔ 46 ∉ d := by
  have hmap (d' m' : Text) : ((c.updateIndex d m).change d m f).isModule d' m' = true ↔
      (d = d' ∧ m = m') ∨ c.isModule d' m' = true := by
    rw [ModulesConf.isModule_change, ModulesConf.isModule_updateIndex]
  have hindex : ((c.updateIndex d m).change d m f).modules_conf_index =
      (c.updateIndex d m).modules_conf_index := rfl
  constructor
  · intro h'
    exact h'.dotless ((hmap d m).mpr (.inl ⟨rfl, rfl⟩))
  · intro hdot
    by_cases hold : c.isModule d m = true
    · refine h.congr (fun d' m' => ?_) ?_
      · rw [Bool.eq_iff_iff, hmap]
        refine ⟨?_, .inr⟩
        rintro (⟨rfl, rfl⟩ | hmodule)
        · exact hold
        · exact hmodule
      · rw [hindex, ModulesConf.updateIndex, if_pos hold]
    · have hnew : indexString d m ∉ c.modules_conf_index := fun hmem => hold (h.isModule_of_mem hdot hmem)
      have happend : (c.updateIndex d m).modules_conf_index =
          c.modules_conf_index ++ [indexString d m] := by
        rw [ModulesConf.updateIndex, if_neg hold]
      refine ⟨fun d' m' hmodule => ?_, fun s hs => ?_⟩
      · rw [hindex, happend, List.count_append]
        rcases (hmap d' m').mp hmodule with ⟨rfl, rfl⟩ | hmodule
        · rw [List.count_eq_zero_of_not_mem hnew, List.count_singleton_self]
          exact ⟨rfl, splitIndex_eq_iff.mpr hdot⟩
        · have hne : indexString d m ≠ indexString d' m' := by
            intro heq
            obtain ⟨rfl, rfl⟩ := indexString_inj hdot (h.dotless hmodule) heq
            exact hold hmodule
          have hzero : List.count (indexString d' m') [indexString d m] = 0 :=
            List.count_eq_zero_of_not_mem (by simpa using Ne.symm hne)
          rw [hzero, (h.once d' m' hmodule).1]
          exact ⟨rfl, (h.once d' m' hmodule).2⟩
      · rw [hindex, happend] at hs
        rcases List.mem_append.mp hs with hs | hs
        · obtain ⟨d', m', hmodule, heq⟩ := h.only s hs
          exact ⟨d', m', (hmap d' m').mpr (.inr hmodule), heq⟩
        · exact ⟨d, m, (hmap d m).mpr (.inl ⟨rfl, rfl⟩), List.mem_singleton.mp hs⟩

/-- An entry that is changed behind the back of the index. -/
lemma change_iff (h : Indexed c) (f : ModuleEntry → ModuleEntry) :
    Indexed (c.change d m f) ↔ c.isModule d m = true := by
  constructor
  · intro h'
    have hnew : (c.change d m f).isModule d m = true :=
      (ModulesConf.isModule_change c f).mpr (.inl ⟨rfl, rfl⟩)
    have hcount := (h'.once d m hnew).1
    have hmem : indexString d m ∈ c.modules_conf_index := by
      refine List.count_pos_iff.mp ?_
      rw [show c.modules_conf_index = (c.change d m f).modules_conf_index from rfl, hcount]
      exact Nat.one_pos
    exact h.isModule_of_mem (h'.dotless hnew) hmem
  · intro hold
    refine h.congr (fun d' m' => ?_) rfl
    rw [Bool.eq_iff_iff, ModulesConf.isModule_change]
    refine ⟨?_, .inr⟩
    rintro (⟨rfl, rfl⟩ | hmodule)
    · exact hold
    · exact hmodule

lemma removeEntry (h : Indexed c) (d m : Text) : Indexed (c.removeEntry d m).1 := by
  by_cases hold : c.isModule d m = true
  · have hindex : (c.removeEntry d m).1.modules_conf_index =
        c.modules_conf_index.filter (· ≠ indexString d m) := by
      have hold' : ({ c with modified := true } : ModulesConf).isModule d m = true := hold
      simp [ModulesConf.removeEntry, hold']
    refine ⟨fun d' m' hmodule => ?_, fun s hs => ?_⟩
    · obtain ⟨hne, hmodule⟩ := (ModulesConf.isModule_removeEntry c).mp hmodule
      have hstring : indexString d' m' ≠ indexString d m := by
        intro heq
        obtain ⟨rfl, rfl⟩ := indexString_inj (h.dotless hmodule) (h.dotless hold) heq
        exact hne ⟨rfl, rfl⟩
      rw [hindex, List.count_filter (by simpa using hstring)]
      exact h.once d' m' hmodule
    · rw [hindex] at hs
      obtain ⟨hs, hne⟩ := List.mem_filter.mp hs
      obtain ⟨d', m', hmodule, rfl⟩ := h.only s hs
      refine ⟨d', m', (ModulesConf.isModule_removeEntry c).mpr ⟨?_, hmodule⟩, rfl⟩
      rintro ⟨rfl, rfl⟩
      simp at hne
  · have hold' : ({ c with modified := true } : ModulesConf).isModule d m = false :=
      Bool.eq_false_iff.mpr hold
    have hsame : (c.removeEntry d m).1 = { c with modified := true } := by
      simp [ModulesConf.removeEntry, hold']
    rw [hsame]
    exact h.congr (fun _ _ => rfl) rfl

/-- `writeFile` goes through every entry once. -/
lemma emitted (h : Indexed c) :
    c.emitted.Nodup ∧ ∀ d m, (d, m) ∈ c.emitted ↔ c.isModule d m = true := by
  have hnodup : c.modules_conf_index.Nodup := by
    rw [List.nodup_iff_count_eq_one]
    intro s hs
    obtain ⟨d, m, hmodule, rfl⟩ := h.only s hs
    exact (h.once d m hmodule).1
  have hinj : ∀ s ∈ c.modules_conf_index, ∀ s' ∈ c.modules_conf_index,
      splitIndex s = splitIndex s' → s = s' := by
    intro s hs s' hs' heq
    obtain ⟨d, m, hmodule, rfl⟩ := h.only s hs
    obtain ⟨d', m', hmodule', rfl⟩ := h.only s' hs'
    rw [(h.once d m hmodule).2, (h.once d' m' hmodule').2] at heq
    rw [(Prod.mk.inj heq).1, (Prod.mk.inj heq).2]
  constructor
  · exact (List.Nodup.map_on hinj hnodup).filter _
  · intro d m
    unfold ModulesConf.emitted
    rw [List.mem_filter, List.mem_map]
    constructor
    · exact fun hmem => hmem.2
    · intro hmodule
      have hcount := (h.once d m hmodule).1
      have hmem : indexString d m ∈ c.modules_conf_index :=
        List.count_pos_iff.mp (hcount ▸ Nat.one_pos)
      exact ⟨⟨indexString d m, hmem, (h.once d m hmodule).2⟩, hmodule⟩

end Indexed

/-! ### Runs -/

/-- The calls that keep the index: a comment is set for an entry that exists, and an argument only under
a directive without a dot. -/
def StepOk (c : ModulesConf) : Call → Prop
  | .setComment directive module _ _ => c.isModule directive module = true
  | .setArgument directive module arg _ => ModulesConf.rejected directive module arg = true ∨ 46 ∉ directive
  | _ => True

lemma Indexed.touch_iff {c : ModulesConf} (mode : Mode) : Indexed (c.touch mode) ↔ Indexed c :=
  ⟨fun h => h.congr (fun _ _ => rfl) rfl, fun h => h.congr (fun _ _ => rfl) rfl⟩

/-- One call keeps the index exactly if it is one of these. -/
lemma indexed_call_iff {c : ModulesConf} (h : Indexed c) (call : Call) :
    Indexed (c.call call).1 ↔ StepOk c call := by
  have hoptions : 46 ∉ optionsDirective := by decide
  have htouch (mode : Mode) : Indexed (c.touch mode) := (Indexed.touch_iff mode).mpr h
  cases call with
  | setOption module option value mode =>
    refine iff_of_true ?_ trivial
    unfold ModulesConf.call ModulesConf.setOption
    dsimp only
    split
    · exact h
    · exact ((htouch mode).add_iff fun e => e.setOption option value mode).mpr hoptions
  | setOptions module arg mode =>
    refine iff_of_true ?_ trivial
    unfold ModulesConf.call ModulesConf.setOptions
    dsimp only
    split
    · exact htouch mode
    · exact ((htouch mode).add_iff fun e => e.setOptions arg mode).mpr hoptions
  | setArgument directive module arg mode =>
    unfold ModulesConf.call ModulesConf.setArgument StepOk
    dsimp only
    split
    next hrejected => exact iff_of_true h (.inl hrejected)
    next hrejected =>
      rw [(htouch mode).add_iff]
      simp [hrejected]
  | setComment directive module arg mode => exact (htouch mode).change_iff fun e => e.setComment arg
  | removeEntry directive module => exact iff_of_true (h.removeEntry directive module) trivial

/-- The states of a sequence of calls. -/
def states (c : ModulesConf) : List Call → List ModulesConf
  | [] => [c]
  | call :: calls => c :: states (c.call call).1 calls

def StepsOk (c : ModulesConf) : List Call → Prop
  | [] => True
  | call :: calls => StepOk c call ∧ StepsOk (c.call call).1 calls

lemma indexed_states_iff {c : ModulesConf} (h : Indexed c) (calls : List Call) :
    (∀ c' ∈ states c calls, Indexed c') ↔ StepsOk c calls := by
  induction calls generalizing c with
  | nil =>
    refine iff_of_true ?_ trivial
    intro c' hc'
    exact List.mem_singleton.mp hc' ▸ h
  | cons call calls ih =>
    have hfirst : (c.call call).1 ∈ states (c.call call).1 calls := by
      cases calls with
      | nil => exact List.mem_cons_self
      | cons _ _ => exact List.mem_cons_self
    constructor
    · intro hall
      have hnext : Indexed (c.call call).1 := hall _ (List.mem_cons_of_mem c hfirst)
      exact ⟨(indexed_call_iff h call).mp hnext,
        (ih hnext).mp fun c' hc' => hall c' (List.mem_cons_of_mem c hc')⟩
    · rintro ⟨hstep, hsteps⟩ c' hc'
      have hnext := (indexed_call_iff h call).mpr hstep
      rcases List.mem_cons.mp hc' with rfl | hc'
      · exact h
      · exact (ih hnext).mpr hsteps c' hc'

lemma indexed_empty : Indexed .empty :=
  ⟨fun d m h => absurd h (by simp [ModulesConf.empty, ModulesConf.isModule, ModulesConf.moduleEntry,
    ModulesConf.modules, Assoc.find]), fun s hs => absurd hs (by simp [ModulesConf.empty])⟩

/-- While a file is parsed and the configuration is changed, the index stays in step with the map, and
`writeFile` would write every entry once, exactly if every call keeps it. -/
theorem index_kept_iff (mode : Mode) (content : Text) (calls : List Call) :
    (∀ c ∈ states .empty (parseFile mode content ++ calls), Indexed c ∧
      c.emitted.Nodup ∧ ∀ d m, (d, m) ∈ c.emitted ↔ c.isModule d m = true) ↔
    StepsOk .empty (parseFile mode content ++ calls) := by
  rw [← indexed_states_iff indexed_empty]
  exact forall₂_congr fun c _ => ⟨fun h => h.1, fun h => ⟨h, h.emitted⟩⟩

lemma not_indexed {c : ModulesConf} {d m : Text} (hmodule : c.isModule d m = true)
    (hmem : indexString d m ∉ c.modules_conf_index ∨ splitIndex (indexString d m) ≠ (d, m)) :
    ¬ Indexed c := by
  intro h
  obtain ⟨hcount, hsplit⟩ := h.once d m hmodule
  rcases hmem with hmem | hmem
  · rw [List.count_eq_zero_of_not_mem hmem] at hcount
    cases hcount
  · exact hmem hsplit

/-- A line of options without options, and a directive with a dot. -/
theorem index_misses_entry :
    (∃ c ∈ states .empty (parseFile .init (ascii "options a\n")), ¬ Indexed c) ∧
    ∃ c ∈ states .empty (parseFile .init (ascii "a.b c\n")), ¬ Indexed c := by
  have hoptions : ∃ c ∈ states .empty (parseFile .init (ascii "options a\n")),
      c.isModule (ascii "options") (ascii "a") = true ∧
        indexString (ascii "options") (ascii "a") ∉ c.modules_conf_index := by decide
  have hdot : ∃ c ∈ states .empty (parseFile .init (ascii "a.b c\n")),
      c.isModule (ascii "a.b") (ascii "c") = true := by decide
  constructor
  · obtain ⟨c, hc, hmodule, hmem⟩ := hoptions
    exact ⟨c, hc, not_indexed hmodule (.inl hmem)⟩
  · obtain ⟨c, hc, hmodule⟩ := hdot
    exact ⟨c, hc, not_indexed hmodule (.inr (by decide))⟩

end YastCore.Modules
