import YastCore.Lib.Lines
import YastCore.Lib.Occurrences
import YastCore.Value.Path

/-!
# The search paths of modules and components

`YCPPathSearch` keeps a list of directories for each kind of file. It is made of the paths that
components are searched in, back to front, with each directory that is new pushed to the front.
-/

namespace YastCore.PathSearch

open Lines Distinct

/-! ### The paths -/

/-- What the process finds in its environment, and the directory it was configured with. -/
structure Environment where
  y2dir : Option Text
  home : Option Text
  yast2dir : Text

/-- `Y2PathSearch::getPaths` -/
def getPaths (env : Environment) : List Text :=
  [ascii "/y2update"] ++
    (match env.y2dir with
      | some y2dir => (y2dir.splitOn 58).filter fun dir => dir ≠ env.yast2dir
      | none => []) ++
    (match env.home with
      | some home => [home ++ ascii "/.yast2"]
      | none => []) ++
    [env.yast2dir]

inductive Kind
  | Client
  | Include
  | Module
deriving DecidableEq, Repr

/-- `searchList` and `initialized` -/
structure State where
  searchList : Kind → List Text
  initialized : Bool

def State.start : State := ⟨fun _ => [], false⟩

def addPath (searchList : Kind → List Text) (kind : Kind) (path : Text) : Kind → List Text :=
  if path ∈ searchList kind then searchList
  else fun k => if k = kind then path :: searchList kind else searchList k

/-- `YCPPathSearch::initialize (Kind, const char *)` -/
def initializeKind (env : Environment) (searchList : Kind → List Text) (kind : Kind) (suffix : Text) :
    Kind → List Text :=
  (getPaths env).reverse.foldl (fun searchList path => addPath searchList kind (path ++ suffix)) searchList

def suffix : Kind → Text
  | .Client => ascii "/clients"
  | .Include => ascii "/include"
  | .Module => ascii "/modules"

/-- `YCPPathSearch::initialize ()` -/
def initializeLists (env : Environment) (s : State) : State :=
  if s.initialized then s
  else
    { searchList :=
        [Kind.Client, Kind.Include, Kind.Module].foldl
          (fun searchList kind => initializeKind env searchList kind (suffix kind)) s.searchList
      initialized := true }

/-! ### The search -/

/-- `canonicalize_file_name`, and whether `access` finds a file readable. -/
structure Files where
  canonicalize : Text → Option Text
  readable : Text → Bool

/-- `boost::replace_all_copy (fname, "::", "/")` -/
def replaceColons : Text → Text
  | [] => []
  | [c] => [c]
  | c :: d :: rest =>
    if c = 58 ∧ d = 58 then 47 :: replaceColons rest else c :: replaceColons (d :: rest)

def completeFilename (files : Files) (fname : Text) : Text :=
  (files.canonicalize (replaceColons fname)).getD fname

/-- The loop of `find` over the directories of a list. -/
def findIn (files : Files) (name : Text) : List Text → Text
  | [] => []
  | dir :: rest =>
    if files.readable (completeFilename files (dir ++ 47 :: name)) then
      completeFilename files (dir ++ 47 :: name)
    else findIn files name rest

/-- `name[0] == '.' && name[1] == '/'` -/
def isRelative (name : Text) : Bool := (ascii "./").isPrefixOf name

def find (env : Environment) (files : Files) (s : State) (kind : Kind) (name : Text) : Text × State :=
  if isRelative name then (if files.readable name then name else [], s)
  else (findIn files name ((initializeLists env s).searchList kind), initializeLists env s)

/-! ### The property -/

/-- The file of the first directory that has it, the directories being in the order of their priority. -/
def highestPriority (files : Files) (name : Text) (dirs : List Text) : Text :=
  match dirs.find? fun dir => files.readable (completeFilename files (dir ++ 47 :: name)) with
  | some dir => completeFilename files (dir ++ 47 :: name)
  | none => []

/-- The list of a kind is `getPaths ()` with its suffix and each directory where it stands first, and
what is found is what the directories of `getPaths ()` have first. -/
structure SearchedInOrder (env : Environment) (kind : Kind) : Prop where
  searchList : (initializeLists env State.start).searchList kind =
    firstOccurrences id ((getPaths env).map (· ++ suffix kind))
  found : ∀ files name, isRelative name = false →
    (find env files State.start kind name).1 =
      highestPriority files name ((getPaths env).map (· ++ suffix kind))

/-! ### The list of a kind -/

lemma addPath_same (searchList : Kind → List Text) (kind : Kind) (path : Text) :
    addPath searchList kind path kind = pushNew (searchList kind) path := by
  by_cases h : path ∈ searchList kind
  · rw [addPath, if_pos h, pushNew, if_pos h]
  · rw [addPath, if_neg h, pushNew, if_neg h, if_pos rfl]

lemma addPath_other (searchList : Kind → List Text) {kind k : Kind} (hk : k ≠ kind) (path : Text) :
    addPath searchList kind path k = searchList k := by
  unfold addPath
  split
  · rfl
  · simp [hk]

lemma foldl_addPath_same (dirs : List Text) (searchList : Kind → List Text) (kind : Kind) (suffix : Text) :
    dirs.foldl (fun searchList path => addPath searchList kind (path ++ suffix)) searchList kind =
      (dirs.map (· ++ suffix)).foldl pushNew (searchList kind) := by
  induction dirs generalizing searchList with
  | nil => rfl
  | cons dir dirs ih => rw [List.foldl_cons, ih, addPath_same, List.map_cons, List.foldl_cons]

lemma foldl_addPath_other (dirs : List Text) (searchList : Kind → List Text) {kind k : Kind} (hk : k ≠ kind)
    (suffix : Text) :
    dirs.foldl (fun searchList path => addPath searchList kind (path ++ suffix)) searchList k = searchList k := by
  induction dirs generalizing searchList with
  | nil => rfl
  | cons dir dirs ih => rw [List.foldl_cons, ih, addPath_other searchList hk]

/-- A list that is empty before gets the last occurrences. -/
lemma initializeKind_same (env : Environment) {searchList : Kind → List Text} {kind : Kind}
    (h : searchList kind = []) (suffix : Text) :
    initializeKind env searchList kind suffix kind = lastOccurrences ((getPaths env).map (· ++ suffix)) := by
  rw [initializeKind, foldl_addPath_same, h, List.map_reverse, foldl_pushNew]

lemma initializeKind_other (env : Environment) (searchList : Kind → List Text) {kind k : Kind} (hk : k ≠ kind)
    (suffix : Text) : initializeKind env searchList kind suffix k = searchList k :=
  foldl_addPath_other _ searchList hk suffix

lemma searchList_initializeLists (env : Environment) (kind : Kind) :
    (initializeLists env State.start).searchList kind =
      lastOccurrences ((getPaths env).map (· ++ suffix kind)) := by
  simp only [initializeLists, State.start, Bool.false_eq_true, if_false, List.foldl_cons, List.foldl_nil]
  cases kind with
  | Client =>
    rw [initializeKind_other env _ (by decide), initializeKind_other env _ (by decide),
      initializeKind_same env rfl]
  | Include =>
    rw [initializeKind_other env _ (by decide), initializeKind_same env]
    exact initializeKind_other env _ (by decide) _
  | Module =>
    rw [initializeKind_same env]
    rw [initializeKind_other env _ (by decide), initializeKind_other env _ (by decide)]

/-! ### What is found -/

lemma findIn_eq_highestPriority (files : Files) (name : Text) (dirs : List Text) :
    findIn files name dirs = highestPriority files name dirs := by
  induction dirs with
  | nil => rfl
  | cons dir dirs ih =>
    rw [findIn, highestPriority, List.find?_cons]
    by_cases hreadable : files.readable (completeFilename files (dir ++ 47 :: name)) = true
    · rw [if_pos hreadable, hreadable]
    · rw [if_neg hreadable, ih, Bool.eq_false_iff.mpr hreadable, highestPriority]

lemma highestPriority_firstOccurrences (files : Files) (name : Text) (dirs : List Text) :
    highestPriority files name (firstOccurrences id dirs) = highestPriority files name dirs := by
  rw [highestPriority, highestPriority, find?_firstOccurrences]

/-- The directories are searched in the order of `getPaths ()` exactly if, of any two of them, the one
that comes first for the first time does so for the last time. -/
theorem searchedInOrder_iff (env : Environment) (kind : Kind) :
    SearchedInOrder env kind ↔ BeginEndAlike (getPaths env) := by
  have hinj : Function.Injective (· ++ suffix kind : Text → Text) := fun _ _ h => List.append_cancel_right h
  have hlist : (initializeLists env State.start).searchList kind =
      firstOccurrences id ((getPaths env).map (· ++ suffix kind)) ↔ BeginEndAlike (getPaths env) := by
    rw [searchList_initializeLists, lastOccurrences_map hinj, firstOccurrences_map hinj,
      (List.map_injective_iff.mpr hinj).eq_iff, lastOccurrences_eq_iff]
  constructor
  · intro h
    exact hlist.mp h.searchList
  · intro h
    have hsearchList := hlist.mpr h
    refine ⟨hsearchList, fun files name hname => ?_⟩
    simp only [find, hname, Bool.false_eq_true, if_false]
    rw [findIn_eq_highestPriority, hsearchList, highestPriority_firstOccurrences]

/-- `Y2DIR=/a:/b:/a`: the list has `/b` in front of `/a`. -/
theorem repeated_not_inOrder : ¬∀ env kind, SearchedInOrder env kind := by
  intro h
  have hlist := (h ⟨some (ascii "/a:/b:/a"), none, ascii "/usr/share/YaST2"⟩ .Module).searchList
  exact absurd hlist (by decide)

end YastCore.PathSearch
