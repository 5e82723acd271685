import YastCore.Lib.SortedVector
import YastCore.Value.Compare
import YastCore.Value.Path

/-!
# The agents of the scripting agent

`ScriptingAgent` keeps its agents in a vector sorted by path and hands a command to the one with the
longest matching path. An agent that is not registered yet is looked for in the `.scr` files, first
under the names that the path suggests, then among all of them.
-/

namespace YastCore.Scr

open SortedVector
open YCPValue (comparePath comparePathLoop compareText)

abbrev Path := List PathComponent

/-! ### Paths -/

/-- `YCPPathRep::compare`, with a counter that does not wrap. -/
def pathOrder (a b : Path) : Ordering :=
  match comparePathLoop a b with
  | some o => o
  | none => Ord.compare a.length b.length

def isPrefixOf (a path : Path) : Bool :=
  if path.length < a.length then false
  else (List.range a.length).all fun c => (a[c]?).map (·.component) == (path[c]?).map (·.component)

/-- `YCPPathRep::at` -/
def pathAt (path : Path) (index : Nat) : Path := path.drop index

/-- `YCPPathRep::prefix` -/
def pathPrefix (path : Path) (index : Nat) : Path := path.take index

/-- What the comparison of paths looks at. -/
def pathKey (path : Path) : List Text := path.map (·.component)

/-! ### Agents and files -/

structure SCRSubAgent where
  path : Path
  value : YCPValue

/-- A file and the path in its first line that starts with a dot. -/
structure ScrFile where
  name : Text
  path : Path

/-- A directory of files, in the order in which the sweep reads them. -/
structure RegistrationDir where
  name : Text
  files : List ScrFile

structure ScriptingAgent where
  agents : List SCRSubAgent
  done_sweep : Bool

def ScriptingAgent.start : ScriptingAgent := ⟨[], false⟩

def lowerBoundOf (agents : List SCRSubAgent) (path : Path) : Nat :=
  lowerBound (fun a => pathOrder a.path path == .lt) agents

def findByPath (agents : List SCRSubAgent) (path : Path) : Option Nat :=
  match agents[lowerBoundOf agents path]? with
  | some a => if pathOrder a.path path = .eq then some (lowerBoundOf agents path) else none
  | none => none

namespace ScriptingAgent

def registerAgent (s : ScriptingAgent) (path : Path) (value : YCPValue) : ScriptingAgent :=
  let agents :=
    match findByPath s.agents path with
    | none => s.agents
    | some agent => s.agents.eraseIdx agent
  let position := lowerBoundOf agents path
  { s with agents := agents.take position ++ ⟨path, value⟩ :: agents.drop position }

def unregisterAgent (s : ScriptingAgent) (path : Path) : ScriptingAgent × Bool :=
  match findByPath s.agents path with
  | none => (s, false)
  | some agent => ({ s with agents := s.agents.eraseIdx agent }, true)

def unregisterAllAgents (_ : ScriptingAgent) : ScriptingAgent := ⟨[], true⟩

end ScriptingAgent

/-- `findSubagent`: the last agent in the vector whose path is a prefix. -/
def findSubagent (agents : List SCRSubAgent) (path : Path) : Option SCRSubAgent :=
  agents.reverse.find? fun a => isPrefixOf a.path path

/-! ### Lookup -/

section Files

variable (isprint : UInt8 → Bool) (dirs : List RegistrationDir)

/-- `tr`, on what `c_str()` shows. -/
def tr (s : Text) (a b : UInt8) : Text := (cut s).map fun c => if c = a then b else c

/-- `".scr"` -/
def scrSuffix : Text := [46, 115, 99, 114]

/-- `.foo.bar.baz` becomes `foo_bar_baz.scr`. -/
def basename (path : Path) : Text := tr ((pathToText isprint path).drop 1) 46 95 ++ scrSuffix

def parseSingleConfigFile (dir : RegistrationDir) (s : ScriptingAgent) (file : ScrFile) :
    ScriptingAgent :=
  match findByPath s.agents file.path with
  | some _ => s
  | none => s.registerAgent file.path (.string (dir.name ++ 47 :: file.name))

/-- The files that are read, among them none without a name before the suffix. -/
def isScrFile (name : Text) : Bool := decide (4 < name.length) && decide (scrSuffix <:+ name)

def parseConfigFiles (s : ScriptingAgent) (dir : RegistrationDir) : ScriptingAgent :=
  (dir.files.filter fun f => isScrFile f.name).foldl (parseSingleConfigFile dir) s

def sweep (s : ScriptingAgent) : ScriptingAgent :=
  { dirs.foldl parseConfigFiles s with done_sweep := true }

/-- The first directory with a file of this name. -/
def findFile (name : Text) : List RegistrationDir → Option (RegistrationDir × ScrFile)
  | [] => none
  | dir :: dirs =>
    match dir.files.find? fun f => f.name = name with
    | some file => some (dir, file)
    | none => findFile name dirs

def tryRegister (s : ScriptingAgent) (path : Path) : ScriptingAgent :=
  match findFile (basename isprint path) dirs with
  | some (dir, file) => parseSingleConfigFile dir s file
  | none => s

/-- The loop over the prefixes of a path, from a length down to zero. -/
def guessAgent (path : Path) (s : ScriptingAgent) : Nat → ScriptingAgent × Option SCRSubAgent
  | 0 =>
    let s := tryRegister isprint dirs s (pathPrefix path 0)
    (s, findSubagent s.agents path)
  | i + 1 =>
    let s := tryRegister isprint dirs s (pathPrefix path (i + 1))
    match findSubagent s.agents path with
    | some agent => (s, some agent)
    | none => guessAgent path s i

def findAndRegisterSubagent (s : ScriptingAgent) (path : Path) : ScriptingAgent × Option SCRSubAgent :=
  match findSubagent s.agents path with
  | some agent => (s, some agent)
  | none =>
    match guessAgent isprint dirs path s path.length with
    | (s, some agent) => (s, some agent)
    | (s, none) =>
      let s := if s.done_sweep then s else sweep dirs s
      (s, findSubagent s.agents path)

/-- The names below a path that lead to an agent, without repetition. -/
def dirSubagents (agents : List SCRSubAgent) (path : Path) : List Text :=
  agents.foldl (fun names a =>
    if isPrefixOf path a.path then
      let str := ((a.path[path.length]?).map (·.component)).getD []
      if names.getLast? = some str then names else names ++ [str]
    else names) []

/-- What becomes of a command. -/
inductive Outcome where
  | listing (names : List Text)
  | notFound
  | notMounted (agent : SCRSubAgent)
  | handed (agent : SCRSubAgent) (relative : Path)

/-- `executeSubagentCommand`; whether the component of an agent can be created is up to the component
broker. -/
def executeSubagentCommand (mounts : SCRSubAgent → Bool) (isDir : Bool) (s : ScriptingAgent)
    (path : Path) : ScriptingAgent × Outcome :=
  match findAndRegisterSubagent isprint dirs s path with
  | (s, none) => (s, if isDir then .listing (dirSubagents s.agents path) else .notFound)
  | (s, some agent) =>
    (s, if mounts agent then .handed agent (pathAt path agent.path.length) else .notMounted agent)

end Files

/-! ### The order of paths -/

lemma pathOrder_eq (a b : Path) : pathOrder a b = compare (pathKey a) (pathKey b) := by
  rw [List.compare_eq_compareLex]
  induction a generalizing b with
  | nil =>
    cases b with
    | nil => rfl
    | cons y b => rfl
  | cons x a ih =>
    cases b with
    | nil => rfl
    | cons y b =>
      have hrest := ih b
      have hlength : Ord.compare (x :: a).length (y :: b).length = Ord.compare a.length b.length := by
        simp only [List.length_cons, Nat.compare_eq_ite_le, Nat.succ_le_succ_iff]
      simp only [pathKey, List.map_cons, List.compareLex_cons_cons]
      rw [show List.compareLex compare (List.map (·.component) a) (List.map (·.component) b) =
        pathOrder a b from hrest.symm]
      unfold pathOrder
      rw [hlength, comparePathLoop, compareText]
      cases Ord.compare x.component y.component with
      | lt => rfl
      | eq => rfl
      | gt => rfl

/-- The counter of `YCPPathRep::compare` does not wrap on a path of less than 2^32 components. -/
lemma comparePath_eq {a : Path} (h : a.length < 2 ^ 32) (b : Path) :
    comparePath a b = some (pathOrder a b) := by
  unfold comparePath pathOrder
  rw [List.take_of_length_le (by omega)]
  cases comparePathLoop a b with
  | some o => rfl
  | none => exact if_pos h

lemma isPrefixOf_iff (a path : Path) : isPrefixOf a path = true ↔ pathKey a <+: pathKey path := by
  have hget : pathKey a <+: pathKey path ↔
      ∀ c, c < a.length → (path[c]?).map (·.component) = (a[c]?).map (·.component) := by
    rw [List.prefix_iff_getElem?]
    simp only [pathKey, List.length_map, List.getElem?_map, List.getElem_map]
    constructor
    · intro h c hc
      rw [h c hc, List.getElem?_eq_getElem hc]
      rfl
    · intro h c hc
      rw [h c hc, List.getElem?_eq_getElem hc]
      rfl
  rw [hget]
  unfold isPrefixOf
  split
  next hlength =>
    refine iff_of_false (by simp) fun h => ?_
    have hlast := h path.length hlength
    rw [List.getElem?_eq_none (Nat.le_refl _), List.getElem?_eq_getElem hlength] at hlast
    cases hlast
  · simp only [List.all_eq_true, List.mem_range, beq_iff_eq]
    exact forall₂_congr fun c _ => eq_comm

/-- A path sorts below the paths that it is a prefix of. -/
lemma compare_of_initial {a b : List Text} (h : a <+: b) : compare a b ≠ .gt := by
  obtain ⟨rest, rfl⟩ := h
  rw [List.compare_eq_compareLex]
  induction a with
  | nil =>
    cases rest with
    | nil => decide
    | cons x rest => simp [List.compareLex]
  | cons x a ih =>
    have hrefl : compare x x = .eq := Std.ReflCmp.compare_self
    rw [List.cons_append, List.compareLex_cons_cons, hrefl]
    exact ih

/-! ### The vector of agents as a map -/

def agentKey (a : SCRSubAgent) : List Text := pathKey a.path

lemma lowerBoundOf_eq (agents : List SCRSubAgent) (path : Path) :
    lowerBoundOf agents path = bound agentKey (pathKey path) agents := by
  unfold lowerBoundOf bound
  simp only [pathOrder_eq, agentKey]

lemma findByPath_eq (agents : List SCRSubAgent) (path : Path) :
    findByPath agents path = find? agentKey (pathKey path) agents := by
  unfold findByPath find?
  simp only [lowerBoundOf_eq, pathOrder_eq]
  cases agents[bound agentKey (pathKey path) agents]? with
  | none => rfl
  | some a => rfl

/-- The registered agents by path. -/
abbrev Registry := List Text → Option SCRSubAgent

variable {s : ScriptingAgent} {m : Registry}

lemma represents_registerAgent (h : Represents agentKey s.agents m) (path : Path) (value : YCPValue) :
    Represents agentKey (s.registerAgent path value).agents
      (Function.update m (pathKey path) (some ⟨path, value⟩)) := by
  have hinsert {agents : List SCRSubAgent} {m' : Registry} (h' : Represents agentKey agents m')
      (hnone : m' (agentKey ⟨path, value⟩) = none) :
      Represents agentKey (agents.take (lowerBoundOf agents path) ++
        ⟨path, value⟩ :: agents.drop (lowerBoundOf agents path))
        (Function.update m' (pathKey path) (some ⟨path, value⟩)) := by
    rw [lowerBoundOf_eq]
    exact h'.insert hnone
  unfold ScriptingAgent.registerAgent
  dsimp only
  split
  next hfind =>
    rw [findByPath_eq] at hfind
    exact hinsert h (h.find?_eq_none_iff.mp hfind)
  next i hfind =>
    rw [findByPath_eq] at hfind
    have herase := hinsert (h.erase hfind) (Function.update_self _ _ _)
    rwa [Function.update_idem] at herase

lemma represents_unregisterAgent (h : Represents agentKey s.agents m) (path : Path) :
    Represents agentKey (s.unregisterAgent path).1.agents (Function.update m (pathKey path) none) := by
  unfold ScriptingAgent.unregisterAgent
  split
  next hfind =>
    rw [findByPath_eq] at hfind
    have hnone := h.find?_eq_none_iff.mp hfind
    rwa [← hnone, Function.update_eq_self]
  next i hfind =>
    rw [findByPath_eq] at hfind
    exact h.erase hfind

/-- The agent is the registered one with the longest path that is a prefix. -/
def IsLongest (m : Registry) (key : List Text) : Option SCRSubAgent → Prop
  | some a => m (agentKey a) = some a ∧ agentKey a <+: key ∧
      ∀ q, (m q).isSome = true → q <+: key → q.length ≤ (agentKey a).length
  | none => ∀ q, q <+: key → m q = none

lemma findSubagent_isLongest (h : Represents agentKey s.agents m) (path : Path) :
    IsLongest m (pathKey path) (findSubagent s.agents path) := by
  unfold findSubagent
  cases hfind : s.agents.reverse.find? fun a => isPrefixOf a.path path with
  | none =>
    intro q hq
    rw [Option.eq_none_iff_forall_ne_some]
    intro a ha
    obtain ⟨hmem, rfl⟩ := (h.mem q a).mp ha
    have hnot := List.find?_eq_none.mp hfind a (List.mem_reverse.mpr hmem)
    exact hnot ((isPrefixOf_iff _ _).mpr hq)
  | some a =>
    obtain ⟨hinitial, later, earlier, hsplit, hlater⟩ := List.find?_eq_some_iff_append.mp hfind
    have hagents : s.agents = earlier.reverse ++ a :: later.reverse := by
      rw [← List.reverse_reverse s.agents, hsplit]
      simp
    have hkey : agentKey a <+: pathKey path := (isPrefixOf_iff _ _).mp hinitial
    refine ⟨(h.mem _ a).mpr ⟨by rw [hagents]; simp, rfl⟩, hkey, ?_⟩
    intro q hq hqprefix
    obtain ⟨b, hb⟩ := Option.isSome_iff_exists.mp hq
    obtain ⟨hmem, rfl⟩ := (h.mem q b).mp hb
    rcases List.prefix_or_prefix_of_prefix hqprefix hkey with hle | hle
    · exact hle.length_le
    · rw [hagents, List.mem_append, List.mem_cons, List.mem_reverse, List.mem_reverse] at hmem
      rcases hmem with hmem | rfl | hmem
      · have hsorted := h.sorted
        rw [hagents] at hsorted
        have hlt := (List.pairwise_append.mp hsorted).2.2 b (List.mem_reverse.mpr hmem) a
          List.mem_cons_self
        exact absurd (Std.OrientedCmp.gt_iff_lt.mpr hlt) (compare_of_initial hle)
      · exact Nat.le_refl _
      · have hnot := hlater b hmem
        rw [(isPrefixOf_iff _ _).mpr hqprefix] at hnot
        cases hnot

/-! ### Registrations -/

inductive Registration where
  | registerAgent (path : Path) (value : YCPValue)
  | unregisterAgent (path : Path)
  | unregisterAllAgents

def ScriptingAgent.apply (s : ScriptingAgent) : Registration → ScriptingAgent
  | .registerAgent path value => s.registerAgent path value
  | .unregisterAgent path => (s.unregisterAgent path).1
  | .unregisterAllAgents => s.unregisterAllAgents

def ScriptingAgent.run (s : ScriptingAgent) (ops : List Registration) : ScriptingAgent :=
  ops.foldl apply s

/-- What is registered under each path: the last registration counts. -/
def registered (m : Registry) : List Registration → Registry
  | [] => m
  | .registerAgent path value :: ops =>
    registered (Function.update m (pathKey path) (some ⟨path, value⟩)) ops
  | .unregisterAgent path :: ops => registered (Function.update m (pathKey path) none) ops
  | .unregisterAllAgents :: ops => registered (fun _ => none) ops

lemma represents_run (h : Represents agentKey s.agents m) (ops : List Registration) :
    Represents agentKey (s.run ops).agents (registered m ops) := by
  induction ops generalizing s m with
  | nil => exact h
  | cons op ops ih =>
    cases op with
    | registerAgent path value => exact ih (represents_registerAgent h path value)
    | unregisterAgent path => exact ih (represents_unregisterAgent h path)
    | unregisterAllAgents => exact ih (represents_nil agentKey)

/-- The dispatch of commands over the registrations `m`. -/
structure Dispatches (s : ScriptingAgent) (m : Registry) : Prop where
  sorted : s.agents.Pairwise fun a b => pathOrder a.path b.path = .lt
  findByPath : ∀ path, (findByPath s.agents path).bind (s.agents[·]?) = m (pathKey path)
  findSubagent : ∀ path, IsLongest m (pathKey path) (findSubagent s.agents path)
  handed : ∀ isprint dirs mounts isDir path agent, Scr.findSubagent s.agents path = some agent →
    executeSubagentCommand isprint dirs mounts isDir s path =
        (s, if mounts agent then .handed agent (pathAt path agent.path.length)
          else .notMounted agent) ∧
      pathKey (agent.path ++ pathAt path agent.path.length) = pathKey path

lemma dispatches_of_represents (h : Represents agentKey s.agents m) : Dispatches s m where
  sorted := by
    simp only [pathOrder_eq]
    exact h.sorted
  findByPath := by
    intro path
    rw [findByPath_eq]
    cases hfind : find? agentKey (pathKey path) s.agents with
    | none => exact (h.find?_eq_none_iff.mp hfind).symm
    | some i =>
      obtain ⟨a, ha, hkey⟩ := (find?_eq_some_iff h.sorted).mp hfind
      rw [Option.bind_some, ha]
      exact ((h.mem _ a).mpr ⟨List.mem_of_getElem? ha, hkey⟩).symm
  findSubagent := findSubagent_isLongest h
  handed := by
    intro isprint dirs mounts isDir path agent hfind
    have hlongest := findSubagent_isLongest h path
    rw [hfind] at hlongest
    obtain ⟨rest, hrest⟩ := hlongest.2.1
    refine ⟨?_, ?_⟩
    · unfold executeSubagentCommand findAndRegisterSubagent
      rw [hfind]
    · have hlength : agent.path.length = (agentKey agent).length := (List.length_map _).symm
      rw [pathAt, hlength, pathKey, List.map_append, List.map_drop]
      change agentKey agent ++ (pathKey path).drop (agentKey agent).length = pathKey path
      rw [← hrest, List.drop_left]

/-- After every sequence of registrations, the vector is strictly sorted, a path is found exactly when
it is registered, and a command goes to the agent with the longest path that is a prefix, with the
rest of the path. -/
theorem dispatch_longest_prefix (ops : List Registration) :
    Dispatches (ScriptingAgent.start.run ops) (registered (fun _ => none) ops) :=
  dispatches_of_represents (represents_run (represents_nil agentKey) ops)

end YastCore.Scr
