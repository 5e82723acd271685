import Mathlib.Logic.Function.Basic
import YastCore.Code.Basic

/-!
# The symbol table

`SymbolTable` with its hash buckets. The fields of the `TableEntry` objects are kept one function for
each field, from addresses; access to an object that is not allocated is a crash, here `none`, and so
is a loop that does not end.
-/

namespace YastCore

/-- The address of a `TableEntry`. -/
abbrev EntryPtr := Nat

structure SymbolTable where
  key : EntryPtr → Text
  nameSpace : EntryPtr → Nat
  category : EntryPtr → Category
  prev : EntryPtr → Option EntryPtr
  next : EntryPtr → Option EntryPtr
  outer : EntryPtr → Option EntryPtr
  overloadedPrev : EntryPtr → Option EntryPtr
  overloadedNext : EntryPtr → Option EntryPtr
  allocated : EntryPtr → Bool
  fresh : EntryPtr
  table : Nat → Option EntryPtr

namespace SymbolTable

/-- A new table. -/
def empty : SymbolTable where
  key _ := []
  nameSpace _ := 0
  category _ := .c_unspec
  prev _ := none
  next _ := none
  outer _ := none
  overloadedPrev _ := none
  overloadedNext _ := none
  allocated _ := false
  fresh := 0
  table _ := none

/-- One character of `SymbolTable::hash`; a `char` is signed. -/
def hashStep (h : UInt32) (c : UInt8) : UInt32 :=
  let h := (h <<< 4) + c.toInt8.toInt32.toUInt32
  let g := h &&& 0xff000000
  if g ≠ 0 then (h ^^^ (g >>> 24)) ^^^ g else h

def hash (prime : Nat) (s : Text) : Nat := (s.foldl hashStep 0).toNat % prime

/-! ### Stores -/

def setPrev (t : SymbolTable) (p : EntryPtr) (v : Option EntryPtr) : Option SymbolTable :=
  if t.allocated p then some { t with prev := Function.update t.prev p v } else none

def setNext (t : SymbolTable) (p : EntryPtr) (v : Option EntryPtr) : Option SymbolTable :=
  if t.allocated p then some { t with next := Function.update t.next p v } else none

def setOuter (t : SymbolTable) (p : EntryPtr) (v : Option EntryPtr) : Option SymbolTable :=
  if t.allocated p then some { t with outer := Function.update t.outer p v } else none

def setBucket (t : SymbolTable) (h : Nat) (v : Option EntryPtr) : SymbolTable :=
  { t with table := Function.update t.table h v }

/-- `TableEntry::TableEntry`. -/
def newEntry (t : SymbolTable) (key : Text) (nameSpace : Nat) (category : Category) : SymbolTable :=
  { t with
    key := Function.update t.key t.fresh key
    nameSpace := Function.update t.nameSpace t.fresh nameSpace
    category := Function.update t.category t.fresh category
    prev := Function.update t.prev t.fresh none
    next := Function.update t.next t.fresh none
    outer := Function.update t.outer t.fresh none
    overloadedPrev := Function.update t.overloadedPrev t.fresh none
    overloadedNext := Function.update t.overloadedNext t.fresh none
    allocated := Function.update t.allocated t.fresh true
    fresh := t.fresh + 1 }

def deleteEntry (t : SymbolTable) (p : EntryPtr) : SymbolTable :=
  { t with allocated := Function.update t.allocated p false }

/-! ### Entering -/

/-- The entry goes to the end of the overloaded entries. -/
def enterOverloaded (t : SymbolTable) (entry : EntryPtr) : Nat → EntryPtr → Option SymbolTable
  | 0, _ => none
  | fuel + 1, last =>
    if t.allocated last then
      match t.overloadedNext last with
      | some next => enterOverloaded t entry fuel next
      | none =>
        some { t with
          overloadedNext := Function.update t.overloadedNext last (some entry)
          overloadedPrev := Function.update t.overloadedPrev entry (some last) }
    else none

/-- The entry takes the place of `bucket` in the bucket list, with `bucket` as its outer scope. -/
def enterScope (t : SymbolTable) (h : Nat) (entry bucket : EntryPtr) : Option SymbolTable := do
  let t ← t.setOuter entry (some bucket)
  let t ←
    match t.prev bucket with
    | some q => (← t.setPrev entry (some q)).setNext q (some entry)
    | none => (t.setBucket h (some entry)).setPrev entry none
  let t ←
    match t.next bucket with
    | some q => (← t.setNext entry (some q)).setPrev q (some entry)
    | none => t.setNext entry none
  (← t.setPrev bucket none).setNext bucket none

/-- The loop over the bucket list. -/
def enterLoop (t : SymbolTable) (h : Nat) (entry : EntryPtr) : Nat → EntryPtr → Option SymbolTable
  | 0, _ => none
  | fuel + 1, bucket =>
    if t.allocated bucket then
      if t.key entry = t.key bucket then
        if t.nameSpace bucket = t.nameSpace entry ∧ t.category bucket = t.category entry then
          enterOverloaded t entry t.fresh bucket
        else enterScope t h entry bucket
      else
        match t.next bucket with
        | none => do (← t.setNext bucket (some entry)).setPrev entry (some bucket)
        | some bucket => enterLoop t h entry fuel bucket
    else none

section Hash

variable (hash : Text → Nat)

def enterEntry (t : SymbolTable) (entry : EntryPtr) : Option SymbolTable :=
  let h := hash (t.key entry)
  match t.table h with
  | none => some (t.setBucket h (some entry))
  | some bucket => enterLoop t h entry t.fresh bucket

/-- `SymbolTable::enter` of a name; the new entry is at the first free address. -/
def enter (t : SymbolTable) (key : Text) (nameSpace : Nat) (category : Category) :
    Option SymbolTable :=
  (t.newEntry key nameSpace category).enterEntry hash t.fresh

/-! ### Finding -/

/-- The loop over the hash chain, and into the scopes when the category is another one. -/
def findLoop (t : SymbolTable) (key : Text) (category : Category) :
    Nat → Option EntryPtr → Option (Option EntryPtr)
  | _, none => some none
  | 0, some _ => none
  | fuel + 1, some tentry =>
    if t.allocated tentry then
      if key = t.key tentry then
        if category = .c_unspec ∨ t.category tentry = category then some (some tentry)
        else findLoop t key category fuel (t.outer tentry)
      else findLoop t key category fuel (t.next tentry)
    else none

def find (t : SymbolTable) (key : Text) (category : Category) : Option (Option EntryPtr) :=
  findLoop t key category t.fresh (t.table (hash key))

/-! ### Removing -/

/-- The loop that looks for the entry in whose scope chain the removed one is; it never gets to a
second entry. -/
def fixShadow (t : SymbolTable) (h : Nat) (entry : EntryPtr) : Option SymbolTable :=
  match t.table h with
  | none => some t
  | some shadow =>
    if t.allocated shadow ∧ t.outer shadow = some entry then t.setOuter shadow (t.outer entry)
    else none

/-- An outer entry takes the place of the removed one. -/
def removeScope (t : SymbolTable) (entry candidate : EntryPtr) : Option SymbolTable := do
  let t ← t.setPrev candidate (t.prev entry)
  let t ← t.setNext candidate (t.next entry)
  let t ←
    match t.next entry with
    | some q => t.setPrev q (some candidate)
    | none => some t
  match t.prev entry with
  | some q => t.setNext q (some candidate)
  | none =>
    let h := hash (t.key entry)
    if t.table h = some entry then some (t.setBucket h (some candidate))
    else fixShadow t h entry

/-- The entry leaves the bucket list. -/
def removeLast (t : SymbolTable) (entry : EntryPtr) : Option SymbolTable :=
  match t.prev entry with
  | some q => do
    let t ← t.setNext q (t.next entry)
    match t.next entry with
    | some r => t.setPrev r (t.prev entry)
    | none => some t
  | none =>
    let h := hash (t.key entry)
    if t.table h = some entry then
      match t.next entry with
      | some r => (t.setBucket h (t.next entry)).setPrev r none
      | none => some (t.setBucket h (t.next entry))
    else fixShadow t h entry

def remove (t : SymbolTable) (entry : EntryPtr) : Option SymbolTable :=
  if t.allocated entry then do
    let t ←
      match t.outer entry with
      | some candidate => removeScope hash t entry candidate
      | none => removeLast hash t entry
    return t.deleteEntry entry
  else none

end Hash

end SymbolTable

end YastCore
