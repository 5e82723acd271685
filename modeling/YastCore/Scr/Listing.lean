import YastCore.Scr.Lookup
import YastCore.Value.Index
import Mathlib.Data.Finset.Card
import Mathlib.Data.Finset.Image

/-!
# Listings

`ScriptingAgent::dirSubagents`, with the list that it builds and the size of that list as an `int`. A name is
compared with the last one only: the agents below a path are sorted by the name that follows it.
-/

namespace YastCore.Scr

open SortedVector
open YCPValue (listSize listValue)

/-- A pass of the loop in `dirSubagents`. None stands for a component behind the end of a path, and for a
method of the null pointer that the list gives where there is no last element. -/
def listAgent (path : Path) (dir_list : List YCPValue) (it_path : Path) : Option (List YCPValue) :=
  if isPrefixOf path it_path then
    match it_path[path.length]? with
    | none => none
    | some component =>
      let str := YCPValue.string component.component
      let size := listSize dir_list
      if size = 0 then some (dir_list ++ [str])
      else
        (YCPValue.compare (listValue dir_list (size - 1)) str).map fun order =>
          if order = .eq then dir_list else dir_list ++ [str]
  else some dir_list

/-- `dirSubagents` -/
def dirList (agents : List SCRSubAgent) (path : Path) : Option (List YCPValue) :=
  agents.foldlM (fun dir_list a => listAgent path dir_list a.path) []

/-! ### What is listed -/

/-- The names that follow a path in the paths of the agents. -/
def followers (agents : List SCRSubAgent) (path : Path) : List Text :=
  agents.filterMap fun a =>
    if isPrefixOf path a.path then (a.path[path.length]?).map (·.component) else none

/-- Every name that follows the path in the path of an agent, once and in order. -/
structure Names (agents : List SCRSubAgent) (path : Path) (names : List Text) : Prop where
  sorted : names.Pairwise fun a b => compare a b = .lt
  mem : ∀ name, name ∈ names ↔ ∃ a ∈ agents, pathKey path ++ [name] <+: agentKey a

def ListsBelow (agents : List SCRSubAgent) (path : Path) : Prop :=
  ∃ names, dirList agents path = some (names.map YCPValue.string) ∧ Names agents path names

section

variable {agents : List SCRSubAgent} {a : SCRSubAgent} {path it_path : Path} {names : List Text}
  {component : PathComponent} {name : Text}

/-! ### One agent -/

lemma getElem?_of_below (hbelow : isPrefixOf path a.path = true) (hnot : isPrefixOf a.path path = false) :
    ∃ component, a.path[path.length]? = some component := by
  rw [isPrefixOf_iff] at hbelow
  have hlength : path.length < a.path.length := by
    by_contra hge
    have hle : (pathKey path).length ≤ (pathKey a.path).length := hbelow.length_le
    have heq : (pathKey path).length = (pathKey a.path).length := by
      simp only [pathKey, List.length_map] at hle ⊢
      omega
    have hself : isPrefixOf a.path path = true := by
      rw [isPrefixOf_iff, hbelow.eq_of_length heq]
    rw [hnot] at hself
    cases hself
  exact ⟨a.path[path.length], List.getElem?_eq_getElem hlength⟩

lemma listAgent_of_not_below (h : isPrefixOf path it_path = false) (dir_list : List YCPValue) :
    listAgent path dir_list it_path = some dir_list := by
  rw [listAgent, h, if_neg Bool.false_ne_true]

lemma compare_string (a b : Text) :
    YCPValue.compare (.string a) (.string b) = some (compare a b) := by
  simp [YCPValue.compare, YCPValue.isNull, YCPValue.valuetype, YCPValue.compareText]

lemma listAgent_below (hbelow : isPrefixOf path it_path = true) (hget : it_path[path.length]? = some component)
    (hsize : names.length < 2 ^ 31) :
    listAgent path (names.map YCPValue.string) it_path =
      some ((squeezeStep names component.component).map YCPValue.string) := by
  have hlist : listSize (names.map YCPValue.string) = names.length := by
    rw [(YCPValue.listSize_eq_length_iff _).mpr (by rwa [List.length_map]), List.length_map]
  rw [listAgent, if_pos hbelow, hget]
  dsimp only
  rw [hlist]
  rcases List.eq_nil_or_concat names with rfl | ⟨before, last, hnames⟩
  · rfl
  rw [List.concat_eq_append] at hnames
  have hlength : names.length = before.length + 1 := by
    rw [hnames, List.length_append, List.length_singleton]
  have hvalue : listValue (names.map YCPValue.string) ((names.length : Int) - 1) = .string last := by
    have hinside : ¬ ((names.length : Int) - 1 < 0 ||
        listSize (names.map YCPValue.string) ≤ (names.length : Int) - 1) := by
      simp only [Bool.or_eq_true, decide_eq_true_eq]
      omega
    rw [listValue, if_neg hinside, hlength, hnames]
    simp
  have hne : ¬ (names.length : Int) = 0 := by omega
  rw [if_neg hne, hvalue, compare_string, Option.map_some, squeezeStep, hnames, List.getLast?_concat]
  by_cases heq : last = component.component
  · have horder : compare last component.component = .eq := by
      rw [heq]
      exact Std.ReflCmp.compare_self
    rw [if_pos horder, if_pos (congrArg some heq)]
  · have horder : compare last component.component ≠ .eq :=
      fun h => heq (Std.LawfulEqCmp.eq_of_compare h)
    rw [if_neg horder, if_neg (fun h => heq (Option.some.inj h)), List.map_append,
      List.map_append, List.map_append]
    rfl

/-- After 2^31 names the size of the list is negative. -/
lemma listAgent_full (hbelow : isPrefixOf path it_path = true) (hsize : names.length = 2 ^ 31) :
    listAgent path (names.map YCPValue.string) it_path = none := by
  have hlist : listSize (names.map YCPValue.string) = -2 ^ 31 := by
    rw [listSize, List.length_map, hsize]
    rfl
  rw [listAgent, if_pos hbelow]
  split
  · rfl
  · dsimp only
    rw [hlist]
    have hvalue : listValue (names.map YCPValue.string) (-2 ^ 31 - 1) = .null := by
      rw [listValue, if_pos (by simp)]
    rw [if_neg (by decide), hvalue]
    rfl

/-! ### All agents -/

/-- No agent's path is a prefix of the path. -/
def NoneAbove (agents : List SCRSubAgent) (path : Path) : Prop := ∀ a ∈ agents, isPrefixOf a.path path = false

instance : Decidable (NoneAbove agents path) :=
  inferInstanceAs (Decidable (∀ a ∈ agents, isPrefixOf a.path path = false))

lemma followers_append (agents agents' : List SCRSubAgent) (path : Path) :
    followers (agents ++ agents') path = followers agents path ++ followers agents' path :=
  List.filterMap_append

lemma followers_of_not_below (h : isPrefixOf path a.path = false) : followers [a] path = [] := by
  simp [followers, h]

lemma followers_of_below (hbelow : isPrefixOf path a.path = true) (hget : a.path[path.length]? = some component) :
    followers [a] path = [component.component] := by
  simp [followers, hbelow, hget]

lemma length_squeeze_dropLast_le (l : List Text) : (squeeze l.dropLast).length ≤ (squeeze l).length := by
  induction l using List.reverseRecOn with
  | nil => exact Nat.le_refl _
  | append_singleton l name _ =>
    rw [List.dropLast_concat, squeeze_append_singleton]
    exact (length_squeezeStep (squeeze l) name).1

lemma length_squeeze_le_dropLast (l : List Text) : (squeeze l).length ≤ (squeeze l.dropLast).length + 1 := by
  induction l using List.reverseRecOn with
  | nil => exact Nat.zero_le _
  | append_singleton l name _ =>
    rw [List.dropLast_concat, squeeze_append_singleton]
    exact (length_squeezeStep (squeeze l) name).2

lemma dirList_append (agents : List SCRSubAgent) (a : SCRSubAgent) (path : Path) :
    dirList (agents ++ [a]) path = (dirList agents path).bind fun dir_list => listAgent path dir_list a.path := by
  unfold dirList
  rw [List.foldlM_append]
  simp only [List.foldlM_cons, List.foldlM_nil, bind_pure]
  rfl

/-- The list is built up to its last element as long as its size is an `int`. -/
lemma dirList_eq (h : NoneAbove agents path) :
    dirList agents path =
      if (squeeze (followers agents path).dropLast).length < 2 ^ 31 then
        some ((squeeze (followers agents path)).map YCPValue.string)
      else none := by
  induction agents using List.reverseRecOn with
  | nil => rfl
  | append_singleton agents a ih =>
    have hagents : NoneAbove agents path := fun b hb => h b (List.mem_append_left _ hb)
    have ha : isPrefixOf a.path path = false := h a (List.mem_append_right _ List.mem_cons_self)
    rw [dirList_append, ih hagents, followers_append]
    cases hbelow : isPrefixOf path a.path with
    | false =>
      rw [followers_of_not_below hbelow, List.append_nil]
      split
      · exact listAgent_of_not_below hbelow _
      · rfl
    | true =>
      obtain ⟨component, hget⟩ := getElem?_of_below hbelow ha
      rw [followers_of_below hbelow hget, List.dropLast_concat, squeeze_append_singleton]
      have hle := length_squeeze_dropLast_le (followers agents path)
      have hge := length_squeeze_le_dropLast (followers agents path)
      by_cases hsize : (squeeze (followers agents path)).length < 2 ^ 31
      · rw [if_pos hsize, if_pos (by omega)]
        exact listAgent_below hbelow hget hsize
      · rw [if_neg hsize]
        split
        · exact listAgent_full hbelow (by omega)
        · rfl

/-- Without the sizes the list is that of `dirSubagents`. -/
lemma dirSubagents_eq (h : NoneAbove agents path) : dirSubagents agents path = squeeze (followers agents path) := by
  induction agents using List.reverseRecOn with
  | nil => rfl
  | append_singleton agents a ih =>
    have hagents : NoneAbove agents path := fun b hb => h b (List.mem_append_left _ hb)
    have ha : isPrefixOf a.path path = false := h a (List.mem_append_right _ List.mem_cons_self)
    have hfold := ih hagents
    unfold dirSubagents at hfold ⊢
    rw [List.foldl_append, List.foldl_cons, List.foldl_nil, hfold, followers_append]
    cases hbelow : isPrefixOf path a.path with
    | false =>
      rw [followers_of_not_below hbelow, List.append_nil]
      rfl
    | true =>
      obtain ⟨component, hget⟩ := getElem?_of_below hbelow ha
      rw [followers_of_below hbelow hget, squeeze_append_singleton, hget]
      rfl

/-! ### The names -/

lemma mem_followers_iff (name : Text) :
    name ∈ followers agents path ↔ ∃ a ∈ agents, pathKey path ++ [name] <+: agentKey a := by
  have hone (a : SCRSubAgent) : (if isPrefixOf path a.path then (a.path[path.length]?).map (·.component) else none) =
      some name ↔ pathKey path ++ [name] <+: agentKey a := by
    have hget : (a.path[path.length]?).map (·.component) = (agentKey a)[(pathKey path).length]? := by
      rw [agentKey, pathKey, pathKey, List.getElem?_map, List.length_map]
    rw [hget]
    constructor
    · intro h
      split at h
      · next hbelow =>
        obtain ⟨rest, hrest⟩ := (isPrefixOf_iff _ _).mp hbelow
        rw [agentKey, ← hrest, List.getElem?_append_right (Nat.le_refl _), Nat.sub_self] at h
        cases rest with
        | nil => cases h
        | cons first rest =>
          rw [List.getElem?_cons_zero, Option.some.injEq] at h
          exact ⟨rest, by rw [agentKey, ← hrest, h, List.append_assoc, List.singleton_append]⟩
      · cases h
    · rintro ⟨rest, hrest⟩
      have hbelow : isPrefixOf path a.path = true :=
        (isPrefixOf_iff _ _).mpr ⟨name :: rest, by rw [← List.singleton_append, ← List.append_assoc]; exact hrest⟩
      rw [if_pos hbelow, ← hrest, List.append_assoc, List.getElem?_append_right (Nat.le_refl _), Nat.sub_self]
      rfl
  rw [followers, List.mem_filterMap]
  exact exists_congr fun a => and_congr_right fun _ => hone a

/-- Behind a common prefix the rests decide. -/
lemma compare_append (k a b : List Text) : compare (k ++ a) (k ++ b) = compare a b := by
  rw [List.compare_eq_compareLex]
  induction k with
  | nil => rfl
  | cons x k ih =>
    have hrefl : compare x x = .eq := Std.ReflCmp.compare_self
    rw [List.cons_append, List.cons_append, List.compareLex_cons_cons, hrefl]
    exact ih

lemma compare_head (x y : Text) (a b : List Text) (h : compare (x :: a) (y :: b) = .lt) : compare x y ≠ .gt := by
  rw [List.compare_eq_compareLex, List.compareLex_cons_cons] at h
  intro hgt
  rw [hgt] at h
  cases h

/-- The agents below a path are sorted by the name that follows it. -/
lemma followers_sorted (h : Sorted agentKey agents) : (followers agents path).Pairwise fun a b => compare a b ≠ .gt := by
  induction agents with
  | nil => exact List.Pairwise.nil
  | cons a agents ih =>
    obtain ⟨ha, hrest⟩ := List.pairwise_cons.mp h
    have hcons : followers (a :: agents) path = followers [a] path ++ followers agents path :=
      followers_append [a] agents path
    rw [hcons]
    refine List.pairwise_append.mpr ⟨?_, ih hrest, ?_⟩
    · rw [followers, List.filterMap_cons]
      split
      · exact List.Pairwise.nil
      · exact List.pairwise_singleton _ _
    · intro name hname name' hname'
      obtain ⟨a', ha', rest, hkey⟩ := (mem_followers_iff name).mp hname
      obtain ⟨b, hb, rest', hkey'⟩ := (mem_followers_iff name').mp hname'
      rw [List.mem_singleton] at ha'
      have hlt := ha b hb
      rw [← ha', ← hkey, ← hkey', List.append_assoc, List.append_assoc, compare_append] at hlt
      exact compare_head name name' rest rest' hlt

lemma card_squeeze (h : Sorted agentKey agents) :
    (squeeze (followers agents path).dropLast).length = (followers agents path).dropLast.toFinset.card := by
  have hfollowers : (followers agents path).Pairwise fun a b => compare a b ≠ .gt := followers_sorted h
  have hsorted := squeeze_sorted (hfollowers.sublist (List.dropLast_sublist _))
  have hnodup : (squeeze (followers agents path).dropLast).Nodup := by
    refine hsorted.imp fun {a b} hlt heq => ?_
    have hrefl : compare b b = .eq := Std.ReflCmp.compare_self
    rw [heq, hrefl] at hlt
    cases hlt
  rw [← List.toFinset_card_of_nodup hnodup]
  congr 1
  ext name
  rw [List.mem_toFinset, List.mem_toFinset, mem_squeeze]

lemma listsBelow_iff (hsorted : Sorted agentKey agents) (hnone : NoneAbove agents path) :
    ListsBelow agents path ↔ (followers agents path).dropLast.toFinset.card < 2 ^ 31 := by
  rw [← card_squeeze hsorted, ListsBelow, dirList_eq hnone]
  constructor
  · rintro ⟨names, h, -⟩
    split at h
    · next hsize => exact hsize
    · cases h
  · intro hsize
    refine ⟨squeeze (followers agents path), if_pos hsize, squeeze_sorted (followers_sorted hsorted), fun name => ?_⟩
    rw [mem_squeeze, mem_followers_iff]

end

/-- After every sequence of commands, a listing has every name that follows the path exactly once and in order
if and only if the agents below the path but the last have less than 2^31 of them. -/
theorem dirList_lists_iff (isprint : UInt8 → Bool) (dirs : List RegistrationDir) (l : List Command) (path : Path)
    (hnone : NoneAbove (ScriptingAgent.start.commands isprint dirs l).agents path) :
    ListsBelow (ScriptingAgent.start.commands isprint dirs l).agents path ↔
      (followers (ScriptingAgent.start.commands isprint dirs l).agents path).dropLast.toFinset.card < 2 ^ 31 := by
  have hstart : Registered ScriptingAgent.start := ⟨_, represents_nil agentKey⟩
  obtain ⟨m, hm⟩ := registered_commands isprint dirs hstart l
  exact listsBelow_iff hm.sorted hnone

/-- `.foo` and `.foo.bar` below the root. -/
theorem dirList_lists_foo :
    ListsBelow (ScriptingAgent.start.commands (fun _ => true) []
      [.registration (.registerAgent fooBarPath .void), .registration (.registerAgent fooPath .void)]).agents [] :=
  (dirList_lists_iff _ _ _ _ (by decide)).mpr (by decide)

/-! ### More names than an `int` counts -/

/-- A path of one component. -/
def countPath (n : ℕ) : Path := [⟨List.replicate n 97, true, by simp⟩]

def countCommands (n : ℕ) : List Command :=
  (List.range n).map fun i => .registration (.registerAgent (countPath i) .void)

lemma commands_registrations (isprint : UInt8 → Bool) (dirs : List RegistrationDir) (s : ScriptingAgent)
    (ops : List Registration) : s.commands isprint dirs (ops.map Command.registration) = s.run ops := by
  rw [ScriptingAgent.commands, List.foldl_map]
  rfl

/-- A path that was registered and not unregistered stays registered. -/
lemma registered_isSome {m : Registry} {k : List Text} {paths : List Path}
    (h : (m k).isSome = true ∨ k ∈ paths.map pathKey) :
    (registered m (paths.map fun p => .registerAgent p .void) k).isSome = true := by
  induction paths generalizing m with
  | nil => exact h.resolve_right List.not_mem_nil
  | cons p paths ih =>
    rw [List.map_cons, registered]
    apply ih
    by_cases hk : k = pathKey p
    · left
      rw [hk, Function.update_self]
      rfl
    · rw [Function.update_of_ne hk]
      rcases h with h | h
      · exact Or.inl h
      · exact Or.inr ((List.mem_cons.mp h).resolve_left hk)

/-- Only these paths are registered. -/
lemma mem_of_registered {m : Registry} {k : List Text} {paths : List Path}
    (h : (registered m (paths.map fun p => .registerAgent p .void) k).isSome = true) :
    (m k).isSome = true ∨ k ∈ paths.map pathKey := by
  induction paths generalizing m with
  | nil => exact Or.inl h
  | cons p paths ih =>
    rw [List.map_cons, registered] at h
    rcases ih h with hm | hmem
    · by_cases hk : k = pathKey p
      · exact Or.inr (hk ▸ List.mem_cons_self)
      · rw [Function.update_of_ne hk] at hm
        exact Or.inl hm
    · exact Or.inr (List.mem_cons_of_mem _ hmem)

def countAgents (n : ℕ) : List SCRSubAgent :=
  (ScriptingAgent.start.commands (fun _ => true) [] (countCommands n)).agents

lemma represents_countAgents (n : ℕ) :
    Represents agentKey (countAgents n)
      (registered (fun _ => none) (((List.range n).map countPath).map fun p => .registerAgent p .void)) := by
  have hcommands : countCommands n =
      ((((List.range n).map countPath).map fun p => Registration.registerAgent p .void).map Command.registration) := by
    rw [countCommands, List.map_map, List.map_map]
    rfl
  rw [countAgents, hcommands, commands_registrations]
  exact represents_run (represents_nil agentKey) _

lemma noneAbove_countAgents (n : ℕ) : NoneAbove (countAgents n) [] := by
  intro a ha
  have hsome := ((represents_countAgents n).mem _ a).mpr ⟨ha, rfl⟩
  have hmem := mem_of_registered (Option.isSome_iff_exists.mpr ⟨a, hsome⟩)
  obtain ⟨p, hp, hkey⟩ := List.mem_map.mp (hmem.resolve_left Bool.false_ne_true)
  obtain ⟨i, -, rfl⟩ := List.mem_map.mp hp
  rw [← Bool.not_eq_true, isPrefixOf_iff]
  intro hprefix
  have hlength := hprefix.length_le
  rw [show pathKey a.path = pathKey (countPath i) from hkey.symm] at hlength
  cases hlength

lemma replicate_mem_followers {n i : ℕ} (hi : i < n) : List.replicate i 97 ∈ followers (countAgents n) [] := by
  have hkey : pathKey (countPath i) ∈ ((List.range n).map countPath).map pathKey :=
    List.mem_map_of_mem (List.mem_map_of_mem (List.mem_range.mpr hi))
  obtain ⟨a, ha⟩ := Option.isSome_iff_exists.mp (registered_isSome (m := fun _ => none) (Or.inr hkey))
  obtain ⟨hmem, hkey⟩ := ((represents_countAgents n).mem _ a).mp ha
  exact (mem_followers_iff _).mpr ⟨a, hmem, [], by rw [hkey]; rfl⟩

lemma le_card_followers (n : ℕ) :
    n ≤ (followers (countAgents (n + 1)) []).dropLast.toFinset.card := by
  generalize hl : followers (countAgents (n + 1)) [] = l
  have himage : (Finset.range (n + 1)).image (fun i => List.replicate i (97 : UInt8)) ⊆ l.toFinset := by
    intro name hname
    obtain ⟨i, hi, rfl⟩ := Finset.mem_image.mp hname
    rw [List.mem_toFinset, ← hl]
    exact replicate_mem_followers (Finset.mem_range.mp hi)
  have hinj : Function.Injective fun i => List.replicate i (97 : UInt8) := by
    intro i j hij
    have hlength := congrArg List.length hij
    simpa using hlength
  have hcard : n + 1 ≤ l.toFinset.card := by
    have hle := Finset.card_le_card himage
    rwa [Finset.card_image_of_injective _ hinj, Finset.card_range] at hle
  have hinsert : l.toFinset.card ≤ l.dropLast.toFinset.card + 1 := by
    rcases List.eq_nil_or_concat l with hnil | ⟨before, last, hconcat⟩
    · rw [hnil]
      exact Nat.zero_le _
    · rw [hconcat, List.concat_eq_append, List.dropLast_concat, List.toFinset_append]
      exact (Finset.card_union_le _ _).trans (by simp)
  omega

/-- 2^31 + 1 paths of one component. -/
theorem not_dirList_lists : ¬ ∀ (l : List Command) (path : Path),
    NoneAbove (ScriptingAgent.start.commands (fun _ => true) [] l).agents path →
      ListsBelow (ScriptingAgent.start.commands (fun _ => true) [] l).agents path := by
  intro hall
  obtain ⟨n, hn⟩ : ∃ n : ℕ, 2 ^ 31 ≤ n := ⟨2 ^ 31, Nat.le_refl _⟩
  have hlists : ListsBelow (countAgents (n + 1)) [] := hall (countCommands (n + 1)) [] (noneAbove_countAgents (n + 1))
  have hless := (listsBelow_iff (represents_countAgents (n + 1)).sorted (noneAbove_countAgents (n + 1))).mp hlists
  have hle := le_card_followers n
  omega

end YastCore.Scr
