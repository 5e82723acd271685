import YastCore.Lib.RefHeap
import YastCore.Value.Container

/-!
# Handles

A value of C++ type `YCPList`, `YCPMap` or `YCPTerm` is a handle to a representation that counts the
handles to it. The methods that change a value go through `writeCopy`. This is the heap of those
representations with the methods, beside the values that the handles stand for.
-/

namespace YastCore

open RefHeap

/-- The class of a representation, with the content of those that have no slots. -/
inductive RepKind where
  | atom (v : YCPValue)
  | list
  | map
  | term (name : Text)

namespace YCPValue

/-- The values whose representation is never changed. -/
def isAtom : YCPValue → Bool
  | null => false
  | list _ => false
  | map _ => false
  | term _ _ => false
  | _ => true

mutual

/-- The representations below a handle. A map has a slot for each key before that for its value, and
a term has a handle to the list of its arguments. -/
def toTree : YCPValue → RepTree RepKind
  | null => .null
  | list l => .node .list (toTrees l)
  | map m => .node .map (toEntries m)
  | term n l => .node (.term n) [.node .list (toTrees l)]
  | void => .node (.atom void) []
  | boolean b => .node (.atom (boolean b)) []
  | integer i => .node (.atom (integer i)) []
  | string s => .node (.atom (string s)) []
  | byteblock b => .node (.atom (byteblock b)) []
  | path p => .node (.atom (path p)) []
  | symbol s => .node (.atom (symbol s)) []
  | code c => .node (.atom (code c)) []
  | ret => .node (.atom ret) []
  | brk => .node (.atom brk) []
  | entry e => .node (.atom (entry e)) []
  | error => .node (.atom error) []
  | reference e => .node (.atom (reference e)) []

def toTrees : List YCPValue → List (RepTree RepKind)
  | [] => []
  | v :: l => toTree v :: toTrees l

def toEntries : List (YCPValue × YCPValue) → List (RepTree RepKind)
  | [] => []
  | (k, v) :: m => .node (.atom k) [] :: toTree v :: toEntries m

end

lemma toTree_of_isAtom {v : YCPValue} (h : v.isAtom = true) : toTree v = .node (.atom v) [] := by
  cases v <;> simp [isAtom] at h <;> rw [toTree]

lemma toTrees_eq_map (l : List YCPValue) : toTrees l = l.map toTree := by
  induction l with
  | nil => rfl
  | cons v l ih => rw [toTrees, ih, List.map_cons]

lemma toTrees_injective {l : List YCPValue} (ih : ∀ v ∈ l, ∀ w, toTree v = toTree w → v = w)
    {l' : List YCPValue} (h : toTrees l = toTrees l') : l = l' := by
  induction l generalizing l' with
  | nil =>
    cases l' with
    | nil => rfl
    | cons w l' => simp [toTrees] at h
  | cons v l ihl =>
    cases l' with
    | nil => simp [toTrees] at h
    | cons w l' =>
      rw [toTrees, toTrees, List.cons.injEq] at h
      rw [ih v List.mem_cons_self w h.1, ihl (fun v' hv' => ih v' (List.mem_cons_of_mem v hv')) h.2]

lemma toEntries_injective {m : List (YCPValue × YCPValue)}
    (ih : ∀ e ∈ m, ∀ w, toTree e.2 = toTree w → e.2 = w) {m' : List (YCPValue × YCPValue)}
    (h : toEntries m = toEntries m') : m = m' := by
  induction m generalizing m' with
  | nil =>
    cases m' with
    | nil => rfl
    | cons e m' => simp [toEntries] at h
  | cons e m ihm =>
    cases m' with
    | nil => simp [toEntries] at h
    | cons e' m' =>
      obtain ⟨k, v⟩ := e
      obtain ⟨k', v'⟩ := e'
      simp only [toEntries, List.cons.injEq, RepTree.node.injEq, RepKind.atom.injEq, and_true] at h
      have hv : v = v' := ih (k, v) List.mem_cons_self v' h.2.1
      rw [h.1, hv, ihm (fun e' he' => ih e' (List.mem_cons_of_mem _ he')) h.2.2]

/-- Different values have different representations. -/
theorem toTree_injective {v w : YCPValue} (h : toTree v = toTree w) : v = w := by
  induction v using YCPValue.induct generalizing w with
  | list l ih =>
    cases w <;> simp only [toTree, RepTree.node.injEq, reduceCtorEq, false_and] at h
    rw [toTrees_injective (fun v hv w => ih v hv) h.2]
  | term n l ih =>
    cases w <;>
      simp only [toTree, RepTree.node.injEq, reduceCtorEq, false_and, RepKind.term.injEq, List.cons.injEq] at h
    rw [h.1, toTrees_injective (fun v hv w => ih v hv) h.2.1.2]
  | map m ih =>
    cases w <;> simp only [toTree, RepTree.node.injEq, reduceCtorEq, false_and] at h
    rw [toEntries_injective (fun e he w => (ih e he).2) h.2]
  | _ =>
    cases w <;> simp [toTree] at h
    all_goals simp [h]

/-- `std::map::erase`, of a key. -/
def mapErase (key : YCPValue) : List (YCPValue × YCPValue) → List (YCPValue × YCPValue)
  | [] => []
  | (k, v) :: m =>
    if keyLess k key then (k, v) :: mapErase key m
    else if keyLess key k then (k, v) :: m
    else m

/-- `YCPMapRep::remove`. -/
def mapRemove (m : List (YCPValue × YCPValue)) (key : YCPValue) :
    Option (List (YCPValue × YCPValue)) :=
  if key.isNull then none
  else if key.isMapKey then some (mapErase key m)
  else some m

end YCPValue

namespace Handles

open Heap YCPValue

abbrev YHeap := Heap RepKind

/-! ### The representations -/

/-- `YCPListRep::add`. -/
def listRepAdd (H : YHeap) (p : Ptr) (value : Slot) : Option YHeap := do
  let H ← H.clone value
  let r ← H.rep p
  some (H.setRep p (some { r with slots := r.slots ++ [value] }))

/-- The loop of `YCPListRep::set` that fills a gap of `n` elements with nil. -/
def listRepPad (p : Ptr) : Nat → YHeap → Option YHeap
  | 0, H => some H
  | n + 1, H => do
    let (v, H) ← H.alloc (.atom void) []
    let H ← H.clone (some v)
    let H ← listRepAdd H p (some v)
    let H ← H.destroy (some v)
    listRepPad p n H

/-- `YCPListRep::set`. -/
def listRepSet (H : YHeap) (p : Ptr) (i : Int) (value : Slot) : Option YHeap :=
  if i < 0 then some H
  else do
    let H ← listRepPad p (i.toNat + 1 - (H.slotsOf p).length) H
    H.assign (.slot p i.toNat) value

/-- `YCPListRep::remove`, which aborts on a bad index. -/
def listRepRemove (H : YHeap) (p : Ptr) (n : Int) : Option YHeap := do
  let r ← H.rep p
  if n < 0 ∨ (r.slots.length : Int) ≤ n then none
  else
    let old ← r.slots[n.toNat]?
    (H.setRep p (some { r with slots := r.slots.eraseIdx n.toNat })).destroy old

/-- The class of what a handle points to; a method of the null handle is a crash. -/
def kindOf (H : YHeap) (s : Slot) : Option RepKind := do
  let r ← H.rep (← s)
  some r.label

/-- What a handle to a value without slots says. -/
def atomOf (H : YHeap) (s : Slot) : Option YCPValue :=
  match kindOf H s with
  | some (.atom v) => some v
  | _ => none

/-- The slot of the first key that is not less. -/
def lowerBound (H : YHeap) (key : YCPValue) : List Slot → Option Nat
  | k :: _ :: rest => do
    let a ← atomOf H k
    if keyLess a key then (lowerBound H key rest).map (· + 2) else some 0
  | _ => some 0

/-- The slot of the key itself. -/
def findKey (H : YHeap) (key : YCPValue) (slots : List Slot) (i : Nat) : Option Bool :=
  match slots[i]? with
  | none => some false
  | some k => do
    let a ← atomOf H k
    some (!keyLess key a)

/-- The key of a map, checked; `some none` is an error that is only reported. -/
def checkKey (H : YHeap) (key : Slot) : Option (Option YCPValue) := do
  match ← kindOf H key with
  | .atom v => some (if v.isMapKey then some v else none)
  | _ => some none

/-- `YCPMapRep::add`. -/
def mapRepAdd (H : YHeap) (p : Ptr) (key value : Slot) : Option YHeap := do
  match ← checkKey H key with
  | none => some H
  | some k =>
    let slots := H.slotsOf p
    let i ← lowerBound H k slots
    if ← findKey H k slots i then H.assign (.slot p (i + 1)) value
    else
      let H ← H.clone key
      let H ← H.clone value
      let r ← H.rep p
      some (H.setRep p (some { r with slots := slots.take i ++ (key :: value :: slots.drop i) }))

/-- `YCPMapRep::remove`. -/
def mapRepRemove (H : YHeap) (p : Ptr) (key : Slot) : Option YHeap := do
  match ← checkKey H key with
  | none => some H
  | some k =>
    let slots := H.slotsOf p
    let i ← lowerBound H k slots
    if ← findKey H k slots i then
      let r ← H.rep p
      let first ← slots[i]?
      let second ← slots[i + 1]?
      let H := H.setRep p (some { r with slots := slots.take i ++ slots.drop (i + 2) })
      let H ← H.destroy second
      H.destroy first
    else some H

/-! ### The handles -/

/-- The operations of a program on its handles, which are numbered; a handle that is not alive is
null. A method takes its argument by reference, so it is the handle that is named. -/
inductive Op where
  /-- a new value without slots -/
  | atom (h : Nat) (v : YCPValue)
  | newList (h : Nat)
  | newMap (h : Nat)
  | newTerm (h : Nat) (name : Text)
  /-- a term with the list `l` of arguments -/
  | termOf (h : Nat) (name : Text) (l : Nat)
  /-- also the copy of a handle, when `h` is null -/
  | assign (h h' : Nat)
  | drop (h : Nat)
  /-- an element of a list, the value of an entry of a map, or the arguments of a term -/
  | fetch (h c i : Nat)
  | listAdd (h value : Nat)
  | listSet (h : Nat) (i : Int) (value : Nat)
  | listRemove (h : Nat) (n : Int)
  | mapAdd (h key value : Nat)
  | mapRemove (h key : Nat)
  | termAdd (h value : Nat)
  | termSet (h : Nat) (i : Int) (value : Nat)

/-- Assign what a temporary points to, and drop the temporary. -/
def assignTemporary (H : YHeap) (h : Nat) (s : Slot) : Option YHeap := do
  let H ← H.clone s
  let H ← H.assign (.var h) s
  H.destroy s

/-- The slot that an operation reads. -/
def fetchSlot (H : YHeap) (c : Slot) (i : Nat) : Option Slot := do
  let p ← c
  match ← kindOf H c with
  | .list => some ((H.slotsOf p).getD i none)
  | .map => (H.slotsOf p)[2 * i + 1]?
  | .term _ => if i = 0 then (H.slotsOf p)[0]? else none
  | .atom _ => none

/-- A method of a list, through the handle. -/
def onList (H : YHeap) (h : Nat) (method : YHeap → Ptr → Option YHeap) : Option YHeap := do
  match ← kindOf H (← H.get (.var h)) with
  | .list => do
    let (p, H) ← H.writeCopy (.var h)
    method H p
  | _ => none

def onMap (H : YHeap) (h : Nat) (method : YHeap → Ptr → Option YHeap) : Option YHeap := do
  match ← kindOf H (← H.get (.var h)) with
  | .map => do
    let (p, H) ← H.writeCopy (.var h)
    method H p
  | _ => none

/-- A method of a term calls that of the list of its arguments, through the handle the term has. -/
def onTerm (H : YHeap) (h : Nat) (method : YHeap → Ptr → Option YHeap) : Option YHeap := do
  match ← kindOf H (← H.get (.var h)) with
  | .term _ => do
    let (p, H) ← H.writeCopy (.var h)
    let (l, H) ← H.writeCopy (.slot p 0)
    method H l
  | _ => none

def step (H : YHeap) : Op → Option YHeap
  | .atom h v => do
    if v.isAtom then
      let (p, H) ← H.alloc (.atom v) []
      assignTemporary H h (some p)
    else none
  | .newList h => do
    let (p, H) ← H.alloc .list []
    assignTemporary H h (some p)
  | .newMap h => do
    let (p, H) ← H.alloc .map []
    assignTemporary H h (some p)
  | .newTerm h name => do
    let (l, H) ← H.alloc .list []
    let (p, H) ← H.alloc (.term name) [some l]
    assignTemporary H h (some p)
  | .termOf h name l => do
    let s ← H.get (.var l)
    match ← kindOf H s with
    | .list => do
      let (p, H) ← H.alloc (.term name) [s]
      assignTemporary H h (some p)
    | _ => none
  | .assign h h' => do
    let s ← H.get (.var h')
    if h = h' then some H else H.assign (.var h) s
  | .drop h => do
    let s ← H.get (.var h)
    let H ← H.put none (.var h)
    H.destroy s
  | .fetch h c i => do
    let s ← fetchSlot H (← H.get (.var c)) i
    assignTemporary H h s
  | .listAdd h value => onList H h fun H p => do listRepAdd H p (← H.get (.var value))
  | .listSet h i value => onList H h fun H p => do listRepSet H p i (← H.get (.var value))
  | .listRemove h n => onList H h fun H p => listRepRemove H p n
  | .mapAdd h key value =>
    onMap H h fun H p => do mapRepAdd H p (← H.get (.var key)) (← H.get (.var value))
  | .mapRemove h key => onMap H h fun H p => do mapRepRemove H p (← H.get (.var key))
  | .termAdd h value => onTerm H h fun H p => do listRepAdd H p (← H.get (.var value))
  | .termSet h i value => onTerm H h fun H p => do listRepSet H p i (← H.get (.var value))

def run (H : YHeap) : List Op → Option YHeap
  | [] => some H
  | op :: ops => do run (← step H op) ops

/-! ### The values -/

/-- An element of a container by value. -/
def fetchValue : YCPValue → Nat → Option YCPValue
  | list l, i => some (l.getD i null)
  | map m, i => m[i]?.map Prod.snd
  | term _ l, i => if i = 0 then some (list l) else none
  | _, _ => none

/-- The same operations on values: no two handles have anything in common. -/
def valueStep (env : List YCPValue) : Op → Option (List YCPValue)
  | .atom h v => if v.isAtom ∧ h < env.length then some (env.set h v) else none
  | .newList h => if h < env.length then some (env.set h (list [])) else none
  | .newMap h => if h < env.length then some (env.set h (map [])) else none
  | .newTerm h name => if h < env.length then some (env.set h (term name [])) else none
  | .termOf h name l =>
    match env[l]? with
    | some (list args) => if h < env.length then some (env.set h (term name args)) else none
    | _ => none
  | .assign h h' => do
    let v ← env[h']?
    if h < env.length then some (env.set h v) else none
  | .drop h => if h < env.length then some (env.set h null) else none
  | .fetch h c i => do
    let v ← fetchValue (← env[c]?) i
    if h < env.length then some (env.set h v) else none
  | .listAdd h value =>
    match env[h]?, env[value]? with
    | some (list l), some v => some (env.set h (list (l ++ [v])))
    | _, _ => none
  | .listSet h i value =>
    match env[h]?, env[value]? with
    | some (list l), some v => some (env.set h (list (listSet l i v)))
    | _, _ => none
  | .listRemove h n =>
    match env[h]? with
    | some (list l) =>
      if n < 0 ∨ (l.length : Int) ≤ n then none else some (env.set h (list (l.eraseIdx n.toNat)))
    | _ => none
  | .mapAdd h key value =>
    match env[h]?, env[key]?, env[value]? with
    | some (map m), some k, some v => (mapAdd m k v).map fun m => env.set h (map m)
    | _, _, _ => none
  | .mapRemove h key =>
    match env[h]?, env[key]? with
    | some (map m), some k => (mapRemove m k).map fun m => env.set h (map m)
    | _, _ => none
  | .termAdd h value =>
    match env[h]?, env[value]? with
    | some (term n l), some v => some (env.set h (term n (l ++ [v])))
    | _, _ => none
  | .termSet h i value =>
    match env[h]?, env[value]? with
    | some (term n l), some v => some (env.set h (term n (listSet l i v)))
    | _, _ => none

def valueRun (env : List YCPValue) : List Op → Option (List YCPValue)
  | [] => some env
  | op :: ops => do valueRun (← valueStep env op) ops

/-- No container is put into itself through the handle that it is changed through. -/
def Op.apart : Op → Bool
  | .listAdd h value => h != value
  | .listSet h i value => decide (i < 0) || h != value
  | .mapAdd h _ value => h != value
  | .termAdd h value => h != value
  | .termSet h i value => decide (i < 0) || h != value
  | _ => true

end Handles

end YastCore
