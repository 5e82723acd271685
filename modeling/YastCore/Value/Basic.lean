import Mathlib.Algebra.Group.Int.Defs
import Mathlib.Algebra.Group.Nat.Defs
import Mathlib.Data.List.Basic
import Mathlib.Tactic.Common

/-!
# YCP values

The value classes of `libycp`. A handle `YCPValue` may be the null handle `YCPNull`, which is what
a failed evaluation yields; containers hold handles, so nothing in the type keeps a null out of
them. Texts are byte strings, as `std::string` is.
-/

namespace YastCore

/-- A `std::string`, byte by byte. -/
abbrev Text := List UInt8

instance : LawfulBEq Text := inferInstance

/-- The address of a code tree held by a `YCPCode`. -/
abbrev CodePtr := Nat

/-- A namespace: a block, by its address, or the module that is loaded under a name. -/
inductive NsId where
  | block (id : Nat)
  | module (name : Text)
deriving DecidableEq, Repr

/-- A symbol entry, by its namespace and its index among the symbols of that namespace. -/
structure EntryRef where
  ns : NsId
  position : Nat
deriving DecidableEq, Repr

/-- The characters of an unquoted path component. -/
def isSimplePathChar (c : UInt8) : Bool :=
  (48 ≤ c && c ≤ 57) || (97 ≤ c && c ≤ 122) || (65 ≤ c && c ≤ 90) || c == 95 || c == 45

/-- What the path scanner admits as a component without quotes. -/
def simpleComponent (t : Text) : Bool :=
  !t.isEmpty && t.all isSimplePathChar && t.head? != some 45 && t.getLast? != some 45

/-- A component of a path. One that is not complex is printed without quotes, so its text is one the
path constructor takes without quotes. -/
structure PathComponent where
  component : Text
  complex : Bool
  simple_text : complex = false → simpleComponent component = true
deriving DecidableEq

/-- A complex component may have any text. -/
lemma PathComponent.text_of_complex (t : Text) : true = false → simpleComponent t = true := nofun

inductive YCPValue where
  | null
  | void
  | boolean (v : Bool)
  | integer (v : Int64)
  | string (v : Text)
  | byteblock (bytes : List UInt8)
  | path (components : List PathComponent)
  | symbol (v : Text)
  | list (elements : List YCPValue)
  | term (name : Text) (args : List YCPValue)
  | map (entries : List (YCPValue × YCPValue))
  | code (c : CodePtr)
  | ret
  | brk
  | entry (e : EntryRef)
  | error
  | reference (e : EntryRef)

namespace YCPValue

/-- The enumeration `YCPValueType`. The null handle has no type; it stands past the last one. -/
def valuetype : YCPValue → Nat
  | void => 0
  | boolean _ => 1
  | integer _ => 2
  | string _ => 4
  | byteblock _ => 5
  | path _ => 6
  | symbol _ => 7
  | list _ => 8
  | term _ _ => 9
  | map _ => 10
  | code _ => 11
  | ret => 12
  | brk => 13
  | entry _ => 14
  | error => 15
  | reference _ => 16
  | null => 18

def isNull : YCPValue → Bool
  | null => true
  | _ => false

/-- `isVoid` is also true of the value of `return;`. -/
def isVoid : YCPValue → Bool
  | void => true
  | ret => true
  | _ => false

def isReturn : YCPValue → Bool
  | ret => true
  | _ => false

def isBreak : YCPValue → Bool
  | brk => true
  | _ => false

def isBoolean : YCPValue → Bool
  | boolean _ => true
  | _ => false

/-- The kinds that `YCPMapRep::add` takes as a key. -/
def isMapKey : YCPValue → Bool
  | string _ => true
  | integer _ => true
  | symbol _ => true
  | _ => false

/-- Induction over the values held at any depth. -/
@[elab_as_elim]
theorem induct {motive : YCPValue → Prop} (null : motive null) (void : motive void)
    (boolean : ∀ b, motive (boolean b)) (integer : ∀ i, motive (integer i))
    (string : ∀ t, motive (string t)) (byteblock : ∀ b, motive (byteblock b))
    (path : ∀ p, motive (path p)) (symbol : ∀ t, motive (symbol t))
    (list : ∀ l, (∀ v ∈ l, motive v) → motive (list l))
    (term : ∀ n l, (∀ v ∈ l, motive v) → motive (term n l))
    (map : ∀ m, (∀ e ∈ m, motive e.1 ∧ motive e.2) → motive (map m))
    (code : ∀ c, motive (code c)) (ret : motive ret) (brk : motive brk)
    (entry : ∀ e, motive (entry e)) (error : motive error)
    (reference : ∀ e, motive (reference e)) (v : YCPValue) : motive v := by
  refine @YCPValue.rec motive (fun l => ∀ v ∈ l, motive v)
    (fun m => ∀ e ∈ m, motive e.1 ∧ motive e.2) (fun e => motive e.1 ∧ motive e.2)
    null void boolean integer string byteblock path symbol list term map code ret brk entry error
    reference ?_ ?_ ?_ ?_ ?_ v
  · intro v hv
    simp at hv
  · intro a l ha hl v hv
    rcases List.mem_cons.mp hv with rfl | hv
    · exact ha
    · exact hl v hv
  · intro e he
    simp at he
  · intro e m he hm e' he'
    rcases List.mem_cons.mp he' with rfl | he'
    · exact he
    · exact hm e' he'
  · intro k v hk hv
    exact ⟨hk, hv⟩

end YCPValue

end YastCore
