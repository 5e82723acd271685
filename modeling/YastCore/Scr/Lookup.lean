import YastCore.Scr.Agents

/-!
# Lazy registration

A lookup registers the agents that it needs. It is compared with the lookup after a sweep, which
registers the agents of all files: the two may differ when an agent is registered already, or when the
names of the files do not follow from the path as it is spelt.
-/

namespace YastCore.Scr

open SortedVector

section Lookup

variable (isprint : UInt8 → Bool) (dirs : List RegistrationDir)

/-! ### What a sweep registers -/

/-- The agent that a file is registered as. -/
def agentOf (x : RegistrationDir × ScrFile) : SCRSubAgent :=
  ⟨x.2.path, .string (x.1.name ++ 47 :: x.2.name)⟩

/-- The files that a sweep reads, in order. -/
def sweptFiles : List (RegistrationDir × ScrFile) :=
  dirs.flatMap fun dir => (dir.files.filter fun f => isScrFile f.name).map fun f => (dir, f)

/-- The first file with a path counts, unless the path is registered. -/
def sweptRegistry (m : Registry) : Registry := fun k =>
  (m k).or (((sweptFiles dirs).find? fun x => pathKey x.2.path = k).map agentOf)

variable {s : ScriptingAgent} {m : Registry}

lemma represents_parseSingleConfigFile (h : Represents agentKey s.agents m)
    (x : RegistrationDir × ScrFile) :
    Represents agentKey (parseSingleConfigFile x.1 s x.2).agents
      (fun k => (m k).or (if pathKey x.2.path = k then some (agentOf x) else none)) := by
  unfold parseSingleConfigFile
  split
  next i hfind =>
    have hsome : m (pathKey x.2.path) ≠ none := by
      intro hnone
      rw [findByPath_eq, h.find?_eq_none_iff.mpr hnone] at hfind
      cases hfind
    have hsame : (fun k => (m k).or (if pathKey x.2.path = k then some (agentOf x) else none)) = m := by
      funext k
      split
      next heq =>
        subst heq
        exact Option.or_of_isSome (Option.isSome_iff_ne_none.mpr hsome)
      · exact Option.or_none
    rw [hsame]
    exact h
  next hfind =>
    rw [findByPath_eq] at hfind
    have hnone := h.find?_eq_none_iff.mp hfind
    have hsame : (fun k => (m k).or (if pathKey x.2.path = k then some (agentOf x) else none)) =
        Function.update m (pathKey x.2.path) (some (agentOf x)) := by
      funext k
      by_cases heq : pathKey x.2.path = k
      · subst heq
        rw [if_pos rfl, hnone, Function.update_self, Option.none_or]
      · rw [if_neg heq, Option.or_none, Function.update_of_ne fun h => heq h.symm]
    rw [hsame]
    exact represents_registerAgent h _ _

lemma represents_parseFiles (h : Represents agentKey s.agents m)
    (files : List (RegistrationDir × ScrFile)) :
    Represents agentKey (files.foldl (fun s x => parseSingleConfigFile x.1 s x.2) s).agents
      (fun k => (m k).or ((files.find? fun x => pathKey x.2.path = k).map agentOf)) := by
  induction files generalizing s m with
  | nil => simpa using h
  | cons x files ih =>
    have hrest := ih (represents_parseSingleConfigFile h x)
    have hsame : (fun k => ((m k).or (if pathKey x.2.path = k then some (agentOf x) else none)).or
        ((files.find? fun x => pathKey x.2.path = k).map agentOf)) =
        fun k => (m k).or (((x :: files).find? fun x => pathKey x.2.path = k).map agentOf) := by
      funext k
      rw [Option.or_assoc, List.find?_cons]
      by_cases heq : pathKey x.2.path = k
      · simp [heq]
      · simp [heq]
    rw [hsame] at hrest
    exact hrest

lemma foldl_parseConfigFiles (s : ScriptingAgent) :
    dirs.foldl parseConfigFiles s =
      (sweptFiles dirs).foldl (fun s x => parseSingleConfigFile x.1 s x.2) s := by
  unfold sweptFiles
  induction dirs generalizing s with
  | nil => rfl
  | cons dir dirs ih =>
    rw [List.foldl_cons, ih, List.flatMap_cons, List.foldl_append, List.foldl_map]
    rfl

lemma represents_sweep (h : Represents agentKey s.agents m) :
    Represents agentKey (sweep dirs s).agents (sweptRegistry dirs m) := by
  unfold sweep
  rw [foldl_parseConfigFiles]
  exact represents_parseFiles h (sweptFiles dirs)

/-! ### The longest prefix is unique -/

lemma isLongest_unique {key : List Text} {x y : Option SCRSubAgent} (hx : IsLongest m key x)
    (hy : IsLongest m key y) : x = y := by
  cases x with
  | none =>
    cases y with
    | none => rfl
    | some b =>
      have hnone := hx _ hy.2.1
      rw [hy.1] at hnone
      cases hnone
  | some a =>
    cases y with
    | none =>
      have hnone := hy _ hx.2.1
      rw [hx.1] at hnone
      cases hnone
    | some b =>
      have hab := hx.2.2 (agentKey b) (by rw [hy.1]; rfl) hy.2.1
      have hba := hy.2.2 (agentKey a) (by rw [hx.1]; rfl) hx.2.1
      have hkey : agentKey a = agentKey b := by
        rw [List.prefix_iff_eq_take.mp hx.2.1, List.prefix_iff_eq_take.mp hy.2.1]
        congr 1
        omega
      rw [← hx.1, hkey, hy.1]

lemma isLongest_congr {m' : Registry} {key : List Text} {x : Option SCRSubAgent}
    (h : ∀ q, q <+: key → m q = m' q) (hx : IsLongest m key x) : IsLongest m' key x := by
  cases x with
  | none =>
    intro q hq
    rw [← h q hq]
    exact hx q hq
  | some a =>
    refine ⟨?_, hx.2.1, ?_⟩
    · rw [← h _ hx.2.1]
      exact hx.1
    · intro q hq hinitial
      rw [← h q hinitial] at hq
      exact hx.2.2 q hq hinitial

lemma findSubagent_eq_iff (h : Represents agentKey s.agents m) (path : Path)
    (x : Option SCRSubAgent) : findSubagent s.agents path = x ↔ IsLongest m (pathKey path) x := by
  constructor
  · rintro rfl
    exact findSubagent_isLongest h path
  · exact isLongest_unique (findSubagent_isLongest h path)

/-! ### Guessing -/

/-- The file named after a prefix of the path, if it leads to an agent for the path. -/
def candidate (path : Path) (i : Nat) : Option (RegistrationDir × ScrFile) :=
  (findFile (basename isprint (pathPrefix path i)) dirs).filter fun x => isPrefixOf x.2.path path

/-- The file that is found by the names of the prefixes, the longest one first. -/
def guessed (path : Path) : Nat → Option (RegistrationDir × ScrFile)
  | 0 => candidate isprint dirs path 0
  | i + 1 => (candidate isprint dirs path (i + 1)).or (guessed path i)

/-- No prefix of the path is registered. -/
def Unregistered (m : Registry) (path : Path) : Prop := ∀ q, q <+: pathKey path → m q = none

lemma parseSingleConfigFile_done (x : RegistrationDir × ScrFile) :
    (parseSingleConfigFile x.1 s x.2).done_sweep = s.done_sweep := by
  unfold parseSingleConfigFile
  split
  · rfl
  · rfl

/-- One turn of the loop over the prefixes. -/
lemma tryRegister_spec (h : Represents agentKey s.agents m) {path : Path}
    (hnone : Unregistered m path) (i : Nat) :
    (tryRegister isprint dirs s (pathPrefix path i)).done_sweep = s.done_sweep ∧
      match candidate isprint dirs path i with
      | some x => findSubagent (tryRegister isprint dirs s (pathPrefix path i)).agents path =
          some (agentOf x)
      | none => ∃ m', Represents agentKey (tryRegister isprint dirs s (pathPrefix path i)).agents m' ∧
          Unregistered m' path := by
  unfold tryRegister candidate
  cases findFile (basename isprint (pathPrefix path i)) dirs with
  | none => exact ⟨rfl, m, h, hnone⟩
  | some x =>
    refine ⟨parseSingleConfigFile_done x, ?_⟩
    have hparsed := represents_parseSingleConfigFile h x
    cases hinitial : isPrefixOf x.2.path path with
    | true =>
      simp only [Option.filter_some, hinitial, if_true]
      have hkey : pathKey x.2.path <+: pathKey path := (isPrefixOf_iff _ _).mp hinitial
      rw [findSubagent_eq_iff hparsed]
      refine ⟨?_, hkey, ?_⟩
      · have hsame : pathKey x.2.path = agentKey (agentOf x) := rfl
        dsimp only
        rw [← hsame, hnone _ hkey, if_pos rfl, Option.none_or]
      · intro q hq hqprefix
        dsimp only at hq
        rw [hnone q hqprefix, Option.none_or] at hq
        split at hq
        next heq =>
          rw [← heq]
          exact Nat.le_refl _
        · cases hq
    | false =>
      simp only [Option.filter_some, hinitial, Bool.false_eq_true, if_false]
      refine ⟨_, hparsed, fun q hq => ?_⟩
      rw [hnone q hq, Option.none_or, if_neg]
      rintro rfl
      rw [(isPrefixOf_iff _ _).mpr hq] at hinitial
      cases hinitial

lemma guessAgent_spec (h : Represents agentKey s.agents m) {path : Path}
    (hnone : Unregistered m path) (i : Nat) :
    (guessAgent isprint dirs path s i).1.done_sweep = s.done_sweep ∧
      match guessed isprint dirs path i with
      | some x => (guessAgent isprint dirs path s i).2 = some (agentOf x)
      | none => (guessAgent isprint dirs path s i).2 = none ∧
          ∃ m', Represents agentKey (guessAgent isprint dirs path s i).1.agents m' ∧
            Unregistered m' path := by
  induction i generalizing s m with
  | zero =>
    obtain ⟨hdone, hstep⟩ := tryRegister_spec isprint dirs h hnone 0
    refine ⟨hdone, ?_⟩
    unfold guessed guessAgent
    cases hcandidate : candidate isprint dirs path 0 with
    | some x =>
      rw [hcandidate] at hstep
      exact hstep
    | none =>
      rw [hcandidate] at hstep
      obtain ⟨m', hm', hnone'⟩ := hstep
      exact ⟨(findSubagent_eq_iff hm' path none).mpr hnone', m', hm', hnone'⟩
  | succ i ih =>
    obtain ⟨hdone, hstep⟩ := tryRegister_spec isprint dirs h hnone (i + 1)
    unfold guessed guessAgent
    cases hcandidate : candidate isprint dirs path (i + 1) with
    | some x =>
      rw [hcandidate] at hstep
      dsimp only at hstep
      simp only [hstep, Option.some_or]
      exact ⟨hdone, trivial⟩
    | none =>
      rw [hcandidate] at hstep
      obtain ⟨m', hm', hnone'⟩ := hstep
      simp only [(findSubagent_eq_iff hm' path none).mpr hnone', Option.none_or]
      obtain ⟨hdone', hrest⟩ := ih hm' hnone'
      exact ⟨hdone'.trans hdone, hrest⟩

/-! ### Lookup and sweep -/

/-- The condition for a lookup to agree with the one after a sweep. Where an agent is registered for
the path, no file that a sweep would register has a longer path. Where none is, the first file that is
guessed is the one that a sweep would take for the longest path of all; and where none is guessed, the
sweep is still to be done, or finds none either. -/
def LookupAgrees (s : ScriptingAgent) (path : Path) : Prop :=
  match findSubagent s.agents path with
  | some agent => ∀ x ∈ sweptFiles dirs, isPrefixOf x.2.path path = true →
      findByPath s.agents x.2.path = none → x.2.path.length ≤ agent.path.length
  | none =>
    match guessed isprint dirs path path.length with
    | some x =>
      ((sweptFiles dirs).find? fun y => pathKey y.2.path = pathKey x.2.path).map agentOf =
          some (agentOf x) ∧
        ∀ y ∈ sweptFiles dirs, isPrefixOf y.2.path path = true → y.2.path.length ≤ x.2.path.length
    | none => s.done_sweep = false ∨ ∀ x ∈ sweptFiles dirs, isPrefixOf x.2.path path = false

lemma length_agentKey (a : SCRSubAgent) : (agentKey a).length = a.path.length := List.length_map _

/-- What is added by a sweep is the path of a file. -/
lemma sweptRegistry_isSome_iff {q : List Text} :
    (sweptRegistry dirs m q).isSome = true ↔
      (m q).isSome = true ∨ ∃ x ∈ sweptFiles dirs, pathKey x.2.path = q := by
  unfold sweptRegistry
  rw [Option.isSome_or, Bool.or_eq_true, Option.isSome_map, List.find?_isSome]
  simp

lemma lookup_registered (h : Represents agentKey s.agents m) {path : Path} {agent : SCRSubAgent}
    (hfind : findSubagent s.agents path = some agent) :
    some agent = findSubagent (sweep dirs s).agents path ↔
      ∀ x ∈ sweptFiles dirs, isPrefixOf x.2.path path = true →
        findByPath s.agents x.2.path = none → x.2.path.length ≤ agent.path.length := by
  have hlongest := (findSubagent_eq_iff h path _).mp hfind
  rw [eq_comm, findSubagent_eq_iff (represents_sweep dirs h)]
  constructor
  · intro hswept x hx hinitial _
    have hsome := (sweptRegistry_isSome_iff dirs (m := m)).mpr (.inr ⟨x, hx, rfl⟩)
    have hle := hswept.2.2 _ hsome ((isPrefixOf_iff _ _).mp hinitial)
    rwa [length_agentKey, pathKey, List.length_map] at hle
  · intro hfiles
    refine ⟨?_, hlongest.2.1, ?_⟩
    · unfold sweptRegistry
      rw [hlongest.1, Option.some_or]
    · intro q hq hinitial
      cases hmq : m q with
      | some b => exact hlongest.2.2 q (by rw [hmq]; rfl) hinitial
      | none =>
        rw [sweptRegistry_isSome_iff, hmq] at hq
        obtain hq | ⟨x, hx, rfl⟩ := hq
        · cases hq
        · have hle := hfiles x hx ((isPrefixOf_iff _ _).mpr hinitial)
            (by rw [findByPath_eq]; exact h.find?_eq_none_iff.mpr hmq)
          rwa [length_agentKey, pathKey, List.length_map]

lemma lookup_guessed {path : Path} (h : Represents agentKey s.agents m) (hnone : Unregistered m path)
    {x : RegistrationDir × ScrFile} (hinitial : isPrefixOf x.2.path path = true) :
    some (agentOf x) = findSubagent (sweep dirs s).agents path ↔
      ((sweptFiles dirs).find? fun y => pathKey y.2.path = pathKey x.2.path).map agentOf =
          some (agentOf x) ∧
        ∀ y ∈ sweptFiles dirs, isPrefixOf y.2.path path = true →
          y.2.path.length ≤ x.2.path.length := by
  have hkey : pathKey x.2.path <+: pathKey path := (isPrefixOf_iff _ _).mp hinitial
  have hswept : sweptRegistry dirs m (agentKey (agentOf x)) =
      ((sweptFiles dirs).find? fun y => pathKey y.2.path = pathKey x.2.path).map agentOf := by
    unfold sweptRegistry
    rw [show agentKey (agentOf x) = pathKey x.2.path from rfl, hnone _ hkey, Option.none_or]
  rw [eq_comm, findSubagent_eq_iff (represents_sweep dirs h)]
  constructor
  · rintro ⟨hfirst, -, hlongest⟩
    refine ⟨by rw [← hswept]; exact hfirst, fun y hy hyprefix => ?_⟩
    have hsome := (sweptRegistry_isSome_iff dirs (m := m)).mpr (.inr ⟨y, hy, rfl⟩)
    have hle := hlongest _ hsome ((isPrefixOf_iff _ _).mp hyprefix)
    rwa [length_agentKey, pathKey, List.length_map] at hle
  · rintro ⟨hfirst, hlongest⟩
    refine ⟨by rw [hswept]; exact hfirst, hkey, fun q hq hqprefix => ?_⟩
    rw [sweptRegistry_isSome_iff, hnone q hqprefix] at hq
    obtain hq | ⟨y, hy, rfl⟩ := hq
    · cases hq
    · have hle := hlongest y hy ((isPrefixOf_iff _ _).mpr hqprefix)
      rwa [length_agentKey, pathKey, List.length_map]

lemma isPrefixOf_of_candidate {path : Path} {i : Nat} {x : RegistrationDir × ScrFile}
    (h : candidate isprint dirs path i = some x) : isPrefixOf x.2.path path = true :=
  (Option.filter_eq_some_iff.mp h).2

lemma isPrefixOf_of_guessed {path : Path} {i : Nat} {x : RegistrationDir × ScrFile}
    (h : guessed isprint dirs path i = some x) : isPrefixOf x.2.path path = true := by
  induction i with
  | zero => exact isPrefixOf_of_candidate isprint dirs h
  | succ i ih =>
    rcases Option.or_eq_some_iff.mp h with h | ⟨-, h⟩
    · exact isPrefixOf_of_candidate isprint dirs h
    · exact ih h

/-- A lookup chooses what one after a sweep would choose exactly under the condition. -/
lemma lookup_iff (h : Represents agentKey s.agents m) (path : Path) :
    (findAndRegisterSubagent isprint dirs s path).2 = findSubagent (sweep dirs s).agents path ↔
      LookupAgrees isprint dirs s path := by
  unfold findAndRegisterSubagent LookupAgrees
  cases hfind : findSubagent s.agents path with
  | some agent => exact lookup_registered dirs h hfind
  | none =>
    have hnone : Unregistered m path := (findSubagent_eq_iff h path none).mp hfind
    obtain ⟨hdone, hguess⟩ := guessAgent_spec isprint dirs h hnone path.length
    cases hguessed : guessed isprint dirs path path.length with
    | some x =>
      rw [hguessed] at hguess
      have hresult : guessAgent isprint dirs path s path.length =
          ((guessAgent isprint dirs path s path.length).1, some (agentOf x)) :=
        Prod.ext rfl hguess
      rw [hresult]
      exact lookup_guessed dirs h hnone (isPrefixOf_of_guessed isprint dirs hguessed)
    | none =>
      rw [hguessed] at hguess
      obtain ⟨hresult, m', hm', hnone'⟩ := hguess
      have hpair : guessAgent isprint dirs path s path.length =
          ((guessAgent isprint dirs path s path.length).1, none) :=
        Prod.ext rfl hresult
      have hswept : IsLongest (sweptRegistry dirs m) (pathKey path)
          (findSubagent (sweep dirs (guessAgent isprint dirs path s path.length).1).agents path) := by
        refine isLongest_congr (fun q hq => ?_)
          (findSubagent_isLongest (represents_sweep dirs hm') path)
        unfold sweptRegistry
        rw [hnone q hq, hnone' q hq]
      rw [hpair]
      dsimp only
      rw [hdone]
      cases hs : s.done_sweep with
      | false =>
        refine iff_of_true ?_ (.inl rfl)
        exact isLongest_unique hswept (findSubagent_isLongest (represents_sweep dirs h) path)
      | true =>
        simp only [if_true, (findSubagent_eq_iff hm' path none).mpr hnone']
        rw [eq_comm, findSubagent_eq_iff (represents_sweep dirs h)]
        constructor
        · intro hswept
          refine .inr fun x hx => ?_
          by_contra hinitial
          have hkey := (isPrefixOf_iff x.2.path path).mp (by simpa using hinitial)
          have hsome := (sweptRegistry_isSome_iff dirs (m := m)).mpr (.inr ⟨x, hx, rfl⟩)
          rw [hswept _ hkey] at hsome
          cases hsome
        · intro hfiles q hq
          by_contra hsome
          have hsome := (sweptRegistry_isSome_iff dirs (m := m)).mp (Option.isSome_iff_ne_none.mpr hsome)
          rw [hnone q hq] at hsome
          obtain hsome | ⟨x, hx, rfl⟩ := hsome
          · cases hsome
          · rcases hfiles with hfiles | hfiles
            · cases hfiles
            · have hfalse := hfiles x hx
              rw [(isPrefixOf_iff _ _).mpr hq] at hfalse
              cases hfalse

/-! ### Runs -/

/-- The commands that a scripting agent gets. -/
inductive Command where
  | execute (path : Path)
  | registerNewAgents
  | registration (r : Registration)

def ScriptingAgent.command (s : ScriptingAgent) : Command → ScriptingAgent
  | .execute path => (findAndRegisterSubagent isprint dirs s path).1
  | .registerNewAgents => sweep dirs s
  | .registration r => s.apply r

def ScriptingAgent.commands (s : ScriptingAgent) (l : List Command) : ScriptingAgent :=
  l.foldl (ScriptingAgent.command isprint dirs) s

/-- Some map is represented by the vector of agents. -/
def Registered (s : ScriptingAgent) : Prop := ∃ m, Represents agentKey s.agents m

lemma registered_tryRegister (h : Registered s) (path : Path) :
    Registered (tryRegister isprint dirs s path) := by
  obtain ⟨m, h⟩ := h
  unfold tryRegister
  split
  next dir file _ => exact ⟨_, represents_parseSingleConfigFile h (dir, file)⟩
  · exact ⟨m, h⟩

lemma registered_guessAgent (h : Registered s) (path : Path) (i : Nat) :
    Registered (guessAgent isprint dirs path s i).1 := by
  induction i generalizing s with
  | zero => exact registered_tryRegister isprint dirs h _
  | succ i ih =>
    have hstep := registered_tryRegister isprint dirs h (pathPrefix path (i + 1))
    unfold guessAgent
    dsimp only
    split
    · exact hstep
    · exact ih hstep

lemma registered_lookup (h : Registered s) (path : Path) :
    Registered (findAndRegisterSubagent isprint dirs s path).1 := by
  unfold findAndRegisterSubagent
  split
  · exact h
  · have hguess := registered_guessAgent isprint dirs h path path.length
    split
    next heq =>
      rw [heq] at hguess
      exact hguess
    next heq =>
      rw [heq] at hguess
      dsimp only
      split
      · exact hguess
      · obtain ⟨m, hm⟩ := hguess
        exact ⟨_, represents_sweep dirs hm⟩

lemma registered_commands (h : Registered s) (l : List Command) :
    Registered (s.commands isprint dirs l) := by
  induction l generalizing s with
  | nil => exact h
  | cons c l ih =>
    refine ih ?_
    cases c with
    | execute path => exact registered_lookup isprint dirs h path
    | registerNewAgents =>
      obtain ⟨m, hm⟩ := h
      exact ⟨_, represents_sweep dirs hm⟩
    | registration r =>
      obtain ⟨m, hm⟩ := h
      exact ⟨_, represents_run hm [r]⟩

end Lookup

/-- After every sequence of commands, with every set of files, a lookup chooses the agent that would
be chosen after a sweep exactly under the condition. -/
theorem lookup_agrees_with_sweep (isprint : UInt8 → Bool) (dirs : List RegistrationDir)
    (l : List Command) (path : Path) :
    (findAndRegisterSubagent isprint dirs (ScriptingAgent.start.commands isprint dirs l) path).2 =
        findSubagent (sweep dirs (ScriptingAgent.start.commands isprint dirs l)).agents path ↔
      LookupAgrees isprint dirs (ScriptingAgent.start.commands isprint dirs l) path := by
  have hstart : Registered ScriptingAgent.start := ⟨_, represents_nil agentKey⟩
  obtain ⟨m, hm⟩ := registered_commands isprint dirs hstart l
  exact lookup_iff isprint dirs hm path

/-! ### An agent that hides another -/

/-- `.foo` -/
def fooPath : Path := [⟨[102, 111, 111], false, fun _ => by decide⟩]

/-- `.foo.bar` -/
def fooBarPath : Path := fooPath ++ [⟨[98, 97, 114], false, fun _ => by decide⟩]

/-- A directory with the files `foo.scr` and `foo_bar.scr`. -/
def fooDir : RegistrationDir :=
  ⟨[100], [⟨[102, 111, 111] ++ scrSuffix, fooPath⟩,
    ⟨[102, 111, 111, 95, 98, 97, 114] ++ scrSuffix, fooBarPath⟩]⟩

/-- After a command for `.foo` one for `.foo.bar` goes to the agent at `.foo`, though a file registers
one at `.foo.bar`. -/
theorem lookup_hidden :
    (∀ f ∈ fooDir.files, f.name = basename (fun _ => true) f.path) ∧
      (findAndRegisterSubagent (fun _ => true) [fooDir]
          (ScriptingAgent.start.commands (fun _ => true) [fooDir] [.execute fooPath]) fooBarPath).2.map
            SCRSubAgent.path = some fooPath ∧
      (findSubagent (sweep [fooDir]
          (ScriptingAgent.start.commands (fun _ => true) [fooDir] [.execute fooPath])).agents
            fooBarPath).map SCRSubAgent.path = some fooBarPath := by
  decide

end YastCore.Scr
