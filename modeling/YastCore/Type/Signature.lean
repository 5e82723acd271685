import Mathlib.Data.List.DropRight
import YastCore.Lib.Lines
import YastCore.Type.Flex

/-!
# Signatures

The declarations of builtins give their types as texts. `Type::fromSignature` reads such a text token by
token and puts the qualifiers on the types it has built.
-/

namespace YastCore.Signature

open Lines YType

abbrev Text := List UInt8

/-! ### Tokens -/

/-- What `nextToken` returns: the kind of a type, `const`, the number of a flex or a character. -/
inductive Token where
  | kind (kind : BaseKind)
  | const
  | flex
  | nFlex (number : Nat)
  | variable
  | block
  | list
  | map
  | tuple
  | char (c : UInt8)
deriving DecidableEq, Repr

def toLower (c : UInt8) : UInt8 := if 65 ≤ c ∧ c ≤ 90 then c + 32 else c

def isdigit (c : UInt8) : Bool := 48 ≤ c && c ≤ 57

/-- What follows the word, where `strncasecmp` finds it. -/
def afterWord (word : String) (signature : Text) : Option Text :=
  if (signature.take (ascii word).length).map toLower = ascii word then
    some (signature.drop (ascii word).length)
  else none

/-- The words that begin with a character, in the order they are tried. -/
def wordsFrom (c : UInt8) : Option (List (String × Token)) :=
  match toLower c with
  | 97 => some [("any", .kind .anyT)]
  | 98 => some [("boolean", .kind .booleanT), ("byteblock", .kind .byteblockT), ("block", .block)]
  | 99 => some [("const", .const)]
  | 102 => some [("float", .kind .floatT), ("flex", .flex)]
  | 105 => some [("integer", .kind .integerT)]
  | 108 => some [("list", .list), ("locale", .kind .localeT)]
  | 109 => some [("map", .map)]
  | 112 => some [("path", .kind .pathT)]
  | 115 => some [("string", .kind .stringT), ("symbol", .kind .symbolT)]
  | 116 => some [("term", .kind .termT), ("tuple", .tuple)]
  | 118 => some [("void", .kind .voidT), ("variable", .variable)]
  | 46 => some [("...", .kind .wildcardT)]
  | _ => none

/-- The digits after `flex`, as long as their number fits an `int`. -/
def flexToken (signature : Text) : Token × Text :=
  let k := (signature.takeWhile isdigit).foldl (fun k c => k * 10 + (c.toNat - 48)) 0
  (if k = 0 then .flex else .nFlex k, signature.dropWhile isdigit)

/-- Where no word is found nothing is consumed and the kind stays `UnspecT`. -/
def findWord (signature : Text) : List (String × Token) → Token × Text
  | [] => (.kind .unspecT, signature)
  | (word, k) :: words =>
    match afterWord word signature with
    | some rest => if k = .flex then flexToken rest else (k, rest)
    | none => findWord signature words

def isPunctuation (c : UInt8) : Bool := c ∈ ascii "&<>,()"

def token : Text → Token × Text
  | [] => (.kind .unspecT, [])
  | c :: signature =>
    if isPunctuation c then (.char c, signature)
    else
      match wordsFrom c with
      | some words => findWord (c :: signature) words
      | none => (.kind .errorT, c :: signature)

def nextToken (signature : Text) : Token × Text :=
  let (k, rest) := token (eatWhitespaces signature)
  (k, eatWhitespaces rest)

/-! ### Types -/

/-- The constants for the plain types: there is no constant wildcard and no constant error. -/
def plainType (as_const : Bool) (kind : BaseKind) : YType :=
  base kind ⟨as_const && kind != .wildcardT && kind != .errorT, false⟩

/-- From the fifth flex on there is no constant one. -/
def nFlexType (as_const : Bool) (number : Nat) : YType :=
  nFlexT number ⟨as_const && decide (number ≤ 4), false⟩

/-- `nextToken (signature) != next` -/
def expect (next : UInt8) (signature : Text) : Option Text :=
  match nextToken signature with
  | (.char c, rest) => if c = next then some rest else none
  | _ => none

/-- The reference sign after a type. It is put on a clone of the type. -/
def reference (t : YType) (signature : Text) : Option (YType × Text) :=
  if signature.head? = some 38 then
    t.clone.map fun tr => (tr.asReference, eatWhitespaces (signature.drop 1))
  else some (t, signature)

section Rules

variable (fromSignature : Text → Option (YType × Text))

/-- The type between angle brackets. -/
def inBrackets (signature : Text) : Option (YType × Text) := do
  let signature ← expect 60 signature
  let (t1, signature) ← fromSignature signature
  let signature ← expect 62 signature
  return (t1, signature)

/-- The two types between the angle brackets of a map. -/
def keyAndValue (signature : Text) : Option (YType × YType × Text) := do
  let signature ← expect 60 signature
  let (t1, signature) ← fromSignature signature
  let signature ← expect 44 signature
  let (t2, signature) ← fromSignature signature
  let signature ← expect 62 signature
  return (t1, t2, signature)

/-- The type that starts with the token `k`, without what may follow it. -/
def construct (as_const : Bool) (k : Token) (signature : Text) : Option (YType × Text) :=
  match k with
  | .kind .unspecT => none
  | .kind kind => some (plainType as_const kind, signature)
  | .flex => some (flexT ⟨as_const, false⟩, signature)
  | .nFlex number => some (nFlexType as_const number, signature)
  | .variable => (inBrackets fromSignature signature).map fun p => (variableT p.1 ⟨as_const, false⟩, p.2)
  | .block => (inBrackets fromSignature signature).map fun p => (blockT p.1 ⟨as_const, false⟩, p.2)
  | .list => (inBrackets fromSignature signature).map fun p => (listT p.1 ⟨as_const, false⟩, p.2)
  | .map =>
    (keyAndValue fromSignature signature).map fun p => (mapT p.1 p.2.1 ⟨as_const, false⟩, p.2.2)
  | .tuple => do
    let signature ← expect 60 signature
    let (t1, signature) ← fromSignature signature
    return (tupleT [t1] ⟨as_const, false⟩, signature)
  | .char 40 => (fromSignature signature).map fun p => (functionT p.1 [] ⟨as_const, false⟩, p.2)
  | _ => none

/-- The loop over the arguments of a function, from its opening bracket or a comma on. -/
def arguments : Nat → List YType → Text → Option (List YType × Text)
  | 0, _, _ => none
  | fuel + 1, types, signature =>
    let signature := eatWhitespaces (signature.drop 1)
    if signature.head? = some 41 then some (types, signature)
    else
      match fromSignature signature with
      | none => some (types, signature)
      | some (t1, rest) =>
        if rest.head? = some 44 then arguments fuel (types ++ [t1]) rest
        else some (types ++ [t1], rest)

def functionType (fuel : Nat) (as_const : Bool) (t : YType) (signature : Text) :
    Option (YType × Text) := do
  let (types, signature) ← arguments fromSignature fuel [] signature
  if signature.head? = some 41 then
    return (functionT t types ⟨as_const, false⟩, signature.drop 1)
  else none

/-- The loop over the other types of a tuple. Its closing bracket stays. -/
def elements : Nat → List YType → Text → Option (List YType × Text)
  | 0, _, _ => none
  | fuel + 1, types, signature =>
    if signature.head? = some 44 then do
      let (t1, signature) ← fromSignature (signature.drop 1)
      elements fuel (types ++ [t1]) signature
    else if signature.head? = some 62 then some (types, signature)
    else none

def tupleType (fuel : Nat) (t : YType) (signature : Text) : Option (YType × Text) :=
  match t.clone with
  | some (tupleT types q) =>
    (elements fromSignature fuel types signature).map fun p => (tupleT p.1 q, p.2)
  | _ => none

/-- A type from its first token after `const` on. -/
def typeFrom (fuel : Nat) (as_const : Bool) (k : Token) (signature : Text) : Option (YType × Text) := do
  let (t, signature) ← construct fromSignature as_const k signature
  let (t, signature) ← reference t signature
  if signature.head? = some 40 then functionType fromSignature fuel as_const t signature
  else if k = .tuple then tupleType fromSignature fuel t signature
  else return (t, signature)

/-- The body of `fromSignature`. -/
def typeOf (fuel : Nat) (signature : Text) : Option (YType × Text) :=
  if signature = [] then some (base .unspecT unqualified, [])
  else
    match nextToken signature with
    | (.const, rest) => typeFrom fromSignature fuel true (nextToken rest).1 (nextToken rest).2
    | (k, rest) => typeFrom fromSignature fuel false k rest

end Rules

/-- `fromSignature`; none is the null pointer. Every call consumes at least one character. -/
def parse : Nat → Text → Option (YType × Text)
  | 0, _ => none
  | fuel + 1, signature => typeOf (parse fuel) fuel signature

/-- The type and the rest of the text. -/
def fromSignature (signature : Text) : Option (YType × Text) := parse (signature.length + 1) signature

/-! ### The text of a type -/

/-- The words for plain types; the other kinds have none. -/
def kindName : BaseKind → Text
  | .anyT => ascii "any"
  | .booleanT => ascii "boolean"
  | .byteblockT => ascii "byteblock"
  | .floatT => ascii "float"
  | .integerT => ascii "integer"
  | .localeT => ascii "locale"
  | .pathT => ascii "path"
  | .stringT => ascii "string"
  | .symbolT => ascii "symbol"
  | .termT => ascii "term"
  | .voidT => ascii "void"
  | .wildcardT => ascii "..."
  | _ => []

/-- `preToString` -/
def constText (as_const : Bool) : Text := if as_const then ascii "const " else []

/-- `postToString` -/
def referenceText (as_reference : Bool) : Text := if as_reference then ascii " &" else []

def qualified (q : Qualifiers) (body : Text) : Text :=
  constText q.const ++ (body ++ referenceText q.reference)

mutual

/-- The text of a type without its qualifiers, in the syntax that `nextToken` knows. -/
def body : YType → Text
  | base k _ => kindName k
  | variableT t _ => ascii "variable <" ++ (qualified t.qualifiers (body t) ++ ascii ">")
  | listT t _ => ascii "list <" ++ (qualified t.qualifiers (body t) ++ ascii ">")
  | blockT t _ => ascii "block <" ++ (qualified t.qualifiers (body t) ++ ascii ">")
  | mapT k v _ =>
    ascii "map <" ++ (qualified k.qualifiers (body k) ++
      (ascii ", " ++ (qualified v.qualifiers (body v) ++ ascii ">")))
  | functionT r arguments _ =>
    qualified r.qualifiers (body r) ++ (ascii " (" ++ (argumentsText arguments ++ ascii ")"))
  | flexT _ => []
  | nFlexT _ _ => []
  | tupleT _ _ => []

/-- The arguments with commas between them. -/
def argumentsText : List YType → Text
  | [] => []
  | [t] => qualified t.qualifiers (body t)
  | t :: t' :: types =>
    qualified t.qualifiers (body t) ++ (ascii ", " ++ argumentsText (t' :: types))

end

/-- The signature of a type. -/
def signature (t : YType) : Text := qualified t.qualifiers (body t)

/-- The kinds of plain types with a word. -/
def hasName (k : BaseKind) : Prop := kindName k ≠ []

/-- The types built from plain types with a word by lists, maps, blocks, variables and functions. -/
inductive Declarable : YType → Prop
  | base (k : BaseKind) (q : Qualifiers) : hasName k → Declarable (base k q)
  | variableT (t : YType) (q : Qualifiers) : Declarable t → Declarable (variableT t q)
  | listT (t : YType) (q : Qualifiers) : Declarable t → Declarable (listT t q)
  | blockT (t : YType) (q : Qualifiers) : Declarable t → Declarable (blockT t q)
  | mapT (k v : YType) (q : Qualifiers) : Declarable k → Declarable v → Declarable (mapT k v q)
  | functionT (r : YType) (arguments : List YType) (q : Qualifiers) :
    Declarable r → (∀ t ∈ arguments, Declarable t) → Declarable (functionT r arguments q)

/-! ### Types that come back -/

def isFunction : YType → Bool
  | YType.functionT _ _ _ => true
  | _ => false

mutual

/-- The types that come back from their signatures. A `const` is lost where a reference sign follows
and on a wildcard, the reference sign after a function is not read, and the `const` before a function is
also put on its result. -/
def Readable : YType → Prop
  | base k q => q.const = true → q.reference = false ∧ k ≠ .wildcardT
  | variableT t q => Readable t ∧ (q.const = true → q.reference = false)
  | listT t q => Readable t ∧ (q.const = true → q.reference = false)
  | blockT t q => Readable t ∧ (q.const = true → q.reference = false)
  | mapT k v q => Readable k ∧ Readable v ∧ (q.const = true → q.reference = false)
  | functionT r arguments q =>
    Readable r ∧ AllReadable arguments ∧ isFunction r = false ∧ r.isConst = false ∧
      q.reference = false ∧ (q.const = true → r.isReference = true ∨ r.isWildcard = true)
  | _ => False

def AllReadable : List YType → Prop
  | [] => True
  | t :: types => Readable t ∧ AllReadable types

end

/-- All types directly inside come back. -/
def PartsReadable : YType → Prop
  | variableT t _ => Readable t
  | listT t _ => Readable t
  | blockT t _ => Readable t
  | mapT k v _ => Readable k ∧ Readable v
  | _ => True

/-! ### Tokens of signatures -/

lemma eatWhitespaces_idem (s : Text) : eatWhitespaces (eatWhitespaces s) = eatWhitespaces s :=
  List.dropWhile_idempotent isspace s

lemma nextToken_eatWhitespaces (s : Text) : nextToken (eatWhitespaces s) = nextToken s := by
  rw [nextToken, nextToken, eatWhitespaces_idem]

lemma nextToken_kindName {k : BaseKind} (hk : hasName k) (tail : Text) :
    nextToken (kindName k ++ tail) = (.kind k, eatWhitespaces tail) := by
  cases k <;> first | rfl | exact absurd rfl hk

lemma nextToken_const (tail : Text) :
    nextToken (ascii "const " ++ tail) = (.const, eatWhitespaces tail) := rfl

/-- What a type begins with: no space and no closing bracket. -/
def Begins (s : Text) : Prop := ∃ c tail, s = c :: tail ∧ isspace c = false ∧ c ≠ 41

lemma Begins.append {s : Text} (hs : Begins s) (tail : Text) : Begins (s ++ tail) := by
  obtain ⟨c, s, rfl, hc⟩ := hs
  exact ⟨c, s ++ tail, rfl, hc⟩

lemma Begins.eatWhitespaces {s : Text} (hs : Begins s) : eatWhitespaces s = s := by
  obtain ⟨c, s, rfl, hc, _⟩ := hs
  rw [Lines.eatWhitespaces, List.dropWhile_cons_of_neg]
  rw [hc]
  exact Bool.false_ne_true

lemma begins_kindName {k : BaseKind} (hk : hasName k) : Begins (kindName k) := by
  cases k <;> first | exact ⟨_, _, rfl, rfl, by decide⟩ | exact absurd rfl hk

lemma begins_qualified {s : Text} (hs : Begins s) (q : Qualifiers) : Begins (qualified q s) := by
  rw [qualified, constText]
  split
  · exact ⟨_, _, rfl, rfl, by decide⟩
  · exact hs.append _

lemma begins_body {t : YType} (ht : Declarable t) : Begins (body t) := by
  induction ht with
  | base k q hk => exact begins_kindName hk
  | functionT r arguments q hr harguments ih _ =>
    rw [body]
    exact (begins_qualified ih _).append _
  | _ =>
    rw [body]
    exact ⟨_, _, rfl, rfl, by decide⟩

lemma begins_signature {t : YType} (ht : Declarable t) : Begins (signature t) :=
  begins_qualified (begins_body ht) _

/-- What may follow a type inside another one. -/
def Ends (rest : Text) : Prop := rest = [] ∨ ∃ c tail, rest = c :: tail ∧ (c = 62 ∨ c = 44 ∨ c = 41)

lemma Ends.eatWhitespaces {rest : Text} (hrest : Ends rest) : eatWhitespaces rest = rest := by
  obtain rfl | ⟨c, tail, rfl, rfl | rfl | rfl⟩ := hrest
  all_goals rfl

lemma Ends.head?_ne {rest : Text} (hrest : Ends rest) :
    rest.head? ≠ some 38 ∧ rest.head? ≠ some 40 := by
  obtain rfl | ⟨c, tail, rfl, rfl | rfl | rfl⟩ := hrest
  all_goals simp

/-! ### Parts of a type -/

/-- A reference sign or the arguments of a function that a call has left behind. -/
def Leftover (rest : Text) : Prop := ∃ x tail, rest = 32 :: x :: tail ∧ (x = 38 ∨ x = 40)

/-- What reading the signature of `t` before `rest` gives: either a type with nothing left over, which
is `t` if it comes back, or a failure that shows later at the latest. -/
def Reads (t : YType) (rest : Text) (result : Option (YType × Text)) : Prop :=
  (∃ t', result = some (t', rest) ∧ (t' = t ↔ Readable t)) ∨
    (¬ Readable t ∧ (result = none ∨ ∃ t' left, result = some (t', left) ∧ Leftover left))

lemma expect_leftover {rest : Text} (hrest : Leftover rest) {next : UInt8} (h38 : next ≠ 38)
    (h40 : next ≠ 40) : expect next rest = none := by
  obtain ⟨x, tail, rfl, rfl | rfl⟩ := hrest
  · exact if_neg h38.symm
  · exact if_neg h40.symm

section Parts

variable {p : Text → Option (YType × Text)} {fuel : Nat}

/-- Between brackets a leftover is a failure. -/
lemma inBrackets_spec {t : YType} (ht : Declarable t)
    (hp : ∀ rest, Ends rest → Reads t rest (p (signature t ++ rest))) (tail : Text) :
    (inBrackets p (60 :: (signature t ++ 62 :: tail)) = none ∧ ¬ Readable t) ∨
      ∃ t', inBrackets p (60 :: (signature t ++ 62 :: tail)) = some (t', eatWhitespaces tail) ∧
        (t' = t ↔ Readable t) := by
  have hopen : expect 60 (60 :: (signature t ++ 62 :: tail)) = some (signature t ++ 62 :: tail) :=
    congrArg some ((begins_signature ht).append _).eatWhitespaces
  have hclose : expect 62 (62 :: tail) = some (eatWhitespaces tail) := rfl
  rw [inBrackets, hopen]
  obtain ⟨t', heq, ht'⟩ | ⟨hnot, heq | ⟨t', left, heq, hleft⟩⟩ :=
    hp (62 :: tail) (Or.inr ⟨62, tail, rfl, Or.inl rfl⟩)
  · refine Or.inr ⟨t', ?_, ht'⟩
    simp [heq, hclose]
  · refine Or.inl ⟨?_, hnot⟩
    simp [heq]
  · refine Or.inl ⟨?_, hnot⟩
    simp [heq, expect_leftover hleft]

lemma keyAndValue_spec {k v : YType} (hk : Declarable k) (hv : Declarable v)
    (hpk : ∀ rest, Ends rest → Reads k rest (p (signature k ++ rest)))
    (hpv : ∀ rest, Ends rest → Reads v rest (p (signature v ++ rest))) (tail : Text) :
    (keyAndValue p (60 :: (signature k ++ 44 :: 32 :: (signature v ++ 62 :: tail))) = none ∧
        ¬ (Readable k ∧ Readable v)) ∨
      ∃ k' v', keyAndValue p (60 :: (signature k ++ 44 :: 32 :: (signature v ++ 62 :: tail))) =
          some (k', v', eatWhitespaces tail) ∧
        (k' = k ↔ Readable k) ∧ (v' = v ↔ Readable v) := by
  have hopen (rest : Text) : expect 60 (60 :: (signature k ++ rest)) = some (signature k ++ rest) :=
    congrArg some ((begins_signature hk).append rest).eatWhitespaces
  have hcomma (rest : Text) :
      expect 44 (44 :: 32 :: (signature v ++ rest)) = some (signature v ++ rest) :=
    congrArg some ((begins_signature hv).append rest).eatWhitespaces
  have hclose : expect 62 (62 :: tail) = some (eatWhitespaces tail) := rfl
  rw [keyAndValue, hopen]
  obtain ⟨k', heq, hk'⟩ | ⟨hnot, heq | ⟨k', left, heq, hleft⟩⟩ :=
    hpk (44 :: 32 :: (signature v ++ 62 :: tail)) (Or.inr ⟨44, _, rfl, Or.inr (Or.inl rfl)⟩)
  · obtain ⟨v', heq', hv'⟩ | ⟨hnot, heq' | ⟨v', left, heq', hleft⟩⟩ :=
      hpv (62 :: tail) (Or.inr ⟨62, tail, rfl, Or.inl rfl⟩)
    · refine Or.inr ⟨k', v', ?_, hk', hv'⟩
      simp [heq, heq', hcomma, hclose]
    · refine Or.inl ⟨?_, fun h => hnot h.2⟩
      simp [heq, heq', hcomma]
    · refine Or.inl ⟨?_, fun h => hnot h.2⟩
      simp [heq, heq', hcomma, expect_leftover hleft]
  · refine Or.inl ⟨?_, fun h => hnot h.1⟩
    simp [heq]
  · refine Or.inl ⟨?_, fun h => hnot h.1⟩
    simp [heq, expect_leftover hleft]

/-- `t'` is a copy of `t` whose parts are what came back. -/
structure CopyOf (t t' : YType) : Prop where
  qualifiers : t'.qualifiers = t.qualifiers
  clone (q : Qualifiers) : (t'.setQualifiers q).clone = some (t'.setQualifiers unqualified)
  eq_iff : t' = t ↔ PartsReadable t

/-- The qualifiers that `construct` gives a type after `const`. -/
def constructed (as_const : Bool) (t : YType) : Qualifiers := ⟨as_const && !t.isWildcard, false⟩

/-- The result of one bracketed part, put into a constructor. -/
lemma construct_bracketed {t : YType} (ht : Declarable t)
    (hp : ∀ rest, Ends rest → Reads t rest (p (signature t ++ rest)))
    {constructor : YType → Qualifiers → YType} (q : Qualifiers)
    (hinj : ∀ t', constructor t' q = constructor t q ↔ t' = t)
    (hqualifiers : ∀ t', (constructor t' q).qualifiers = q)
    (hset : ∀ t' q', (constructor t' q).setQualifiers q' = constructor t' q')
    (hclone : ∀ t' q', (constructor t' q').clone = some (constructor t' unqualified))
    (hparts : PartsReadable (constructor t q) ↔ Readable t) (as_const : Bool) (tail : Text) :
    let result := (inBrackets p (60 :: (signature t ++ 62 :: tail))).map fun r =>
      (constructor r.1 ⟨as_const, false⟩, r.2)
    (result = none ∧ ¬ PartsReadable (constructor t q)) ∨
      ∃ t', CopyOf (constructor t q) t' ∧
        result = some (t'.setQualifiers ⟨as_const, false⟩, eatWhitespaces tail) := by
  intro result
  obtain ⟨heq, hnot⟩ | ⟨t', heq, ht'⟩ := inBrackets_spec ht hp tail
  · refine Or.inl ⟨?_, fun h => hnot (hparts.mp h)⟩
    simp only [result, heq, Option.map_none]
  · refine Or.inr ⟨constructor t' q, ⟨?_, ?_, ?_⟩, ?_⟩
    · rw [hqualifiers, hqualifiers]
    · intro q'
      rw [hset, hset, hclone]
    · rw [hinj, ht', hparts]
    · simp only [result, heq, Option.map_some, hset]

lemma length_body_le (t : YType) : (body t).length ≤ (signature t).length := by
  rw [signature, qualified, List.length_append, List.length_append]
  omega

lemma length_lt_bracketed (before : Text) (t : YType) :
    (signature t).length < (before ++ (signature t ++ ascii ">")).length := by
  have hclose : (ascii ">").length = 1 := rfl
  rw [List.length_append, List.length_append, hclose]
  omega

lemma constructed_eq {t : YType} (ht : t.isWildcard = false) (as_const : Bool) :
    constructed as_const t = ⟨as_const, false⟩ := by
  rw [constructed, ht, Bool.not_false, Bool.and_true]

lemma plainType_eq {k : BaseKind} (hk : hasName k) (as_const : Bool) (q : Qualifiers) :
    plainType as_const k = base k (constructed as_const (base k q)) := by
  have herror : (k != .errorT) = true := bne_iff_ne.mpr fun h => hk (h ▸ rfl)
  rw [plainType, constructed, herror, Bool.and_true]
  rfl

lemma construct_kind {k : BaseKind} (hk : hasName k) (as_const : Bool) (rest : Text) :
    construct p as_const (.kind k) rest = some (plainType as_const k, rest) := by
  cases k <;> first | rfl | exact absurd rfl hk

/-- Every type but a function starts with a token of its own. -/
lemma construct_spec
    (hp : ∀ t, Declarable t → (signature t).length < fuel → ∀ rest, Ends rest →
      Reads t rest (p (signature t ++ rest)))
    {t : YType} (ht : Declarable t) (hfunction : isFunction t = false)
    (hfuel : (signature t).length ≤ fuel) (as_const : Bool) (tail : Text) :
    ∃ k rest, nextToken (body t ++ tail) = (k, rest) ∧ k ≠ .const ∧ k ≠ .tuple ∧
      ((construct p as_const k rest = none ∧ ¬ PartsReadable t) ∨
        ∃ t', CopyOf t t' ∧
          construct p as_const k rest =
            some (t'.setQualifiers (constructed as_const t), eatWhitespaces tail)) := by
  have hlength := (length_body_le t).trans hfuel
  cases ht with
  | base k q hk =>
    refine ⟨.kind k, _, nextToken_kindName hk tail, nofun, nofun, Or.inr ⟨base k q, ?_, ?_⟩⟩
    · exact ⟨rfl, fun _ => rfl, iff_of_true rfl trivial⟩
    · rw [construct_kind hk, plainType_eq hk as_const q]
      rfl
  | variableT t q ht =>
    refine ⟨.variable, 60 :: (signature t ++ 62 :: tail), ?_, nofun, nofun, ?_⟩
    · rw [body, List.append_assoc, List.append_assoc]
      rfl
    · rw [constructed_eq rfl]
      have hshort := (length_lt_bracketed _ t).trans_le hlength
      exact construct_bracketed ht (hp t ht hshort) q (by simp) (fun _ => rfl) (fun _ _ => rfl)
        (fun _ _ => rfl) Iff.rfl as_const tail
  | listT t q ht =>
    refine ⟨.list, 60 :: (signature t ++ 62 :: tail), ?_, nofun, nofun, ?_⟩
    · rw [body, List.append_assoc, List.append_assoc]
      rfl
    · rw [constructed_eq rfl]
      have hshort := (length_lt_bracketed _ t).trans_le hlength
      exact construct_bracketed ht (hp t ht hshort) q (by simp) (fun _ => rfl) (fun _ _ => rfl)
        (fun _ _ => rfl) Iff.rfl as_const tail
  | blockT t q ht =>
    refine ⟨.block, 60 :: (signature t ++ 62 :: tail), ?_, nofun, nofun, ?_⟩
    · rw [body, List.append_assoc, List.append_assoc]
      rfl
    · rw [constructed_eq rfl]
      have hshort := (length_lt_bracketed _ t).trans_le hlength
      exact construct_bracketed ht (hp t ht hshort) q (by simp) (fun _ => rfl) (fun _ _ => rfl)
        (fun _ _ => rfl) Iff.rfl as_const tail
  | mapT k v q hk hv =>
    refine ⟨.map, 60 :: (signature k ++ 44 :: 32 :: (signature v ++ 62 :: tail)), ?_, nofun, nofun, ?_⟩
    · rw [body, List.append_assoc, List.append_assoc, List.append_assoc, List.append_assoc]
      rfl
    · rw [constructed_eq rfl]
      have hshort : (signature k).length < fuel ∧ (signature v).length < fuel := by
        have hopen : (ascii "map <").length = 5 := rfl
        simp only [body, List.length_append, hopen] at hlength
        rw [signature, signature]
        omega
      obtain ⟨heq, hnot⟩ | ⟨k', v', heq, hk', hv'⟩ :=
        keyAndValue_spec hk hv (hp k hk hshort.1) (hp v hv hshort.2) tail
      · refine Or.inl ⟨?_, hnot⟩
        rw [construct, heq, Option.map_none]
      · refine Or.inr ⟨mapT k' v' q, ⟨rfl, fun _ => rfl, ?_⟩, ?_⟩
        · rw [YType.mapT.injEq, hk', hv', PartsReadable]
          simp
        · rw [construct, heq, Option.map_some]
          rfl
  | functionT r arguments q _ _ => exact Bool.noConfusion hfunction

/-! ### Types with their qualifiers -/

lemma typeOf_const (text : Text) :
    typeOf p fuel (ascii "const " ++ text) =
      typeFrom p fuel true (nextToken text).1 (nextToken text).2 := by
  have hne : ascii "const " ++ text ≠ [] := List.append_ne_nil_of_left_ne_nil (by decide) text
  rw [typeOf, if_neg hne, nextToken_const]
  dsimp only
  rw [nextToken_eatWhitespaces]

lemma typeOf_constText {k : Token} {text rest : Text} (htext : text ≠ [])
    (hnext : nextToken text = (k, rest)) (hk : k ≠ .const) (as_const : Bool) :
    typeOf p fuel (constText as_const ++ text) = typeFrom p fuel as_const k rest := by
  cases as_const with
  | false =>
    change typeOf p fuel text = _
    rw [typeOf, if_neg htext, hnext]
    cases k <;> first | rfl | exact absurd rfl hk
  | true => exact (typeOf_const text).trans (by rw [hnext])

/-- A second `const` is no type. -/
lemma typeOf_const_const (text : Text) :
    typeOf p fuel (ascii "const " ++ (ascii "const " ++ text)) = none := by
  rw [typeOf_const, nextToken_const]
  rfl

lemma constText_append {as_const as_const' : Bool} (hone : (as_const && as_const') = false) :
    constText as_const ++ constText as_const' = constText (as_const || as_const') := by
  revert hone
  cases as_const <;> cases as_const' <;> decide

/-- The qualifiers of a type that is read, with the reference sign if it has one. -/
def readQualifiers (as_const : Bool) (t : YType) : Qualifiers :=
  if t.isReference then ⟨false, true⟩ else constructed as_const t

lemma reference_spec {t t' : YType} (hcopy : CopyOf t t') (as_const : Bool) {tail : Text}
    (htail : (eatWhitespaces tail).head? ≠ some 38) :
    reference (t'.setQualifiers (constructed as_const t))
        (eatWhitespaces (referenceText t.isReference ++ tail)) =
      some (t'.setQualifiers (readQualifiers as_const t), eatWhitespaces tail) := by
  rw [readQualifiers]
  cases t.isReference with
  | false =>
    rw [if_neg Bool.false_ne_true]
    exact if_neg htail
  | true =>
    rw [if_pos rfl]
    change Option.map _ (YType.clone _) = _
    rw [hcopy.clone, Option.map_some]
    cases t' <;> rfl

/-- A type that is no function, before what is not the reference sign. -/
lemma typeOf_spec
    (hp : ∀ t, Declarable t → (signature t).length < fuel → ∀ rest, Ends rest →
      Reads t rest (p (signature t ++ rest)))
    {t : YType} (ht : Declarable t) (hfunction : isFunction t = false)
    (hfuel : (signature t).length ≤ fuel) (as_const : Bool) {tail : Text}
    (htail : (eatWhitespaces tail).head? ≠ some 38) :
    (typeOf p fuel (constText as_const ++ (signature t ++ tail)) = none ∧
        ((as_const && t.isConst) = true ∨ ¬ PartsReadable t)) ∨
      ((as_const && t.isConst) = false ∧ ∃ t', CopyOf t t' ∧
        typeOf p fuel (constText as_const ++ (signature t ++ tail)) =
          if (eatWhitespaces tail).head? = some 40 then
            functionType p fuel (as_const || t.isConst)
              (t'.setQualifiers (readQualifiers (as_const || t.isConst) t)) (eatWhitespaces tail)
          else
            some (t'.setQualifiers (readQualifiers (as_const || t.isConst) t), eatWhitespaces tail)) := by
  have htext : signature t ++ tail =
      constText t.isConst ++ (body t ++ (referenceText t.isReference ++ tail)) := by
    rw [signature, qualified, List.append_assoc, List.append_assoc]
    rfl
  by_cases htwo : (as_const && t.isConst) = true
  · refine Or.inl ⟨?_, Or.inl htwo⟩
    rw [Bool.and_eq_true] at htwo
    rw [htext, htwo.1, htwo.2]
    exact typeOf_const_const _
  · rw [Bool.not_eq_true] at htwo
    obtain ⟨k, rest, hnext, hk, hk', hconstruct⟩ := construct_spec hp ht hfunction hfuel
      (as_const || t.isConst) (referenceText t.isReference ++ tail)
    have hne : body t ++ (referenceText t.isReference ++ tail) ≠ [] := by
      obtain ⟨c, s, heq, _⟩ := begins_body ht
      rw [heq]
      exact List.cons_ne_nil _ _
    rw [htext, ← List.append_assoc, constText_append htwo, typeOf_constText hne hnext hk, typeFrom]
    obtain ⟨hnone, hnot⟩ | ⟨t', hcopy, hsome⟩ := hconstruct
    · refine Or.inl ⟨?_, Or.inr hnot⟩
      rw [hnone]
      rfl
    · refine Or.inr ⟨htwo, t', hcopy, ?_⟩
      rw [hsome, Option.bind_eq_bind, Option.bind_some]
      dsimp only
      rw [reference_spec hcopy _ htail, Option.bind_some]
      dsimp only
      rw [if_neg hk']
      rfl

/-! ### Functions -/

/-- One argument. Where it cannot be read, no closing bracket is found. -/
lemma arguments_step {t : YType} (ht : Declarable t) {rest : Text}
    (hreads : Reads t rest (p (signature t ++ rest))) (n : Nat) (types : List YType) {text : Text}
    (htext : eatWhitespaces (text.drop 1) = signature t ++ rest) :
    (¬ Readable t ∧ ∃ types' rest', arguments p (n + 1) types text = some (types', rest') ∧
        rest'.head? ≠ some 41) ∨
      ∃ t', (t' = t ↔ Readable t) ∧ arguments p (n + 1) types text =
        if rest.head? = some 44 then arguments p n (types ++ [t']) rest
        else some (types ++ [t'], rest) := by
  have hhead : (signature t ++ rest).head? ≠ some 41 := by
    obtain ⟨c, s, heq, _, hc⟩ := begins_signature ht
    rw [heq]
    exact fun h => hc (Option.some.inj h)
  rw [arguments, htext, if_neg hhead]
  obtain ⟨t', heq, ht'⟩ | ⟨hnot, heq | ⟨t', left, heq, x, s, rfl, _⟩⟩ := hreads
  · refine Or.inr ⟨t', ht', ?_⟩
    rw [heq]
  · refine Or.inl ⟨hnot, types, signature t ++ rest, ?_, hhead⟩
    rw [heq]
  · refine Or.inl ⟨hnot, types ++ [t'], 32 :: x :: s, ?_, by simp⟩
    rw [heq]
    exact if_neg (by simp)

lemma begins_argumentsText {t : YType} (ht : Declarable t) (ts : List YType) :
    Begins (argumentsText (t :: ts)) := by
  cases ts with
  | nil => exact begins_signature ht
  | cons t' ts =>
    rw [argumentsText]
    exact (begins_signature ht).append _

lemma length_argumentsText_cons (t t' : YType) (ts : List YType) :
    (argumentsText (t :: t' :: ts)).length =
      (signature t).length + 2 + (argumentsText (t' :: ts)).length := by
  have hcomma : (ascii ", ").length = 2 := rfl
  rw [argumentsText, List.length_append, List.length_append, hcomma, signature]
  omega

/-- The loop over the arguments, at the character before the first of them. -/
lemma arguments_spec
    (hp : ∀ t, Declarable t → (signature t).length < fuel → ∀ rest, Ends rest →
      Reads t rest (p (signature t ++ rest)))
    {t : YType} {ts : List YType} (hts : ∀ t' ∈ t :: ts, Declarable t')
    (hfuel : (argumentsText (t :: ts)).length < fuel) {n : Nat} (hn : ts.length < n)
    (types : List YType) {text tail : Text}
    (htext : eatWhitespaces (text.drop 1) = argumentsText (t :: ts) ++ 41 :: tail) :
    (¬ AllReadable (t :: ts) ∧
        ∃ types' rest, arguments p n types text = some (types', rest) ∧ rest.head? ≠ some 41) ∨
      ∃ types', arguments p n types text = some (types ++ types', 41 :: tail) ∧
        (types' = t :: ts ↔ AllReadable (t :: ts)) := by
  obtain ⟨n, rfl⟩ := Nat.exists_eq_add_one_of_ne_zero (Nat.ne_zero_of_lt hn)
  have ht : Declarable t := hts t List.mem_cons_self
  induction ts generalizing t n types text with
  | nil =>
    have hreads := hp t ht hfuel (41 :: tail) (Or.inr ⟨41, tail, rfl, Or.inr (Or.inr rfl)⟩)
    obtain ⟨hnot, hfails⟩ | ⟨t', ht', heq⟩ := arguments_step ht hreads n types htext
    · exact Or.inl ⟨fun h => hnot h.1, hfails⟩
    · refine Or.inr ⟨[t'], heq.trans (if_neg (by simp)), ?_⟩
      simp [AllReadable, ht']
  | cons t₂ ts ih =>
    have htext' : argumentsText (t :: t₂ :: ts) ++ 41 :: tail =
        signature t ++ 44 :: 32 :: (argumentsText (t₂ :: ts) ++ 41 :: tail) := by
      rw [argumentsText, List.append_assoc, List.append_assoc]
      rfl
    have hlength := length_argumentsText_cons t t₂ ts
    have ht₂ : Declarable t₂ := hts t₂ (List.mem_cons_of_mem t List.mem_cons_self)
    have hreads := hp t ht (by omega) (44 :: 32 :: (argumentsText (t₂ :: ts) ++ 41 :: tail))
      (Or.inr ⟨44, _, rfl, Or.inr (Or.inl rfl)⟩)
    obtain ⟨hnot, hfails⟩ | ⟨t', ht', heq⟩ := arguments_step ht hreads n types (htext.trans htext')
    · exact Or.inl ⟨fun h => hnot h.1, hfails⟩
    · rw [List.length_cons] at hn
      have hne : n ≠ 0 := by omega
      obtain ⟨m, rfl⟩ := Nat.exists_eq_add_one_of_ne_zero hne
      have hnext : eatWhitespaces ((44 :: 32 :: (argumentsText (t₂ :: ts) ++ 41 :: tail)).drop 1) =
          argumentsText (t₂ :: ts) ++ 41 :: tail :=
        ((begins_argumentsText ht₂ ts).append _).eatWhitespaces
      obtain ⟨hnot, hfails⟩ | ⟨types', heq', htypes'⟩ :=
        ih (fun t' ht' => hts t' (List.mem_cons_of_mem t ht')) (by omega) (types ++ [t']) hnext m
          (Nat.lt_of_succ_lt_succ hn) ht₂
      · refine Or.inl ⟨fun h => hnot h.2, ?_⟩
        rw [heq]
        exact hfails
      · refine Or.inr ⟨t' :: types', ?_, ?_⟩
        · rw [heq, if_pos List.head?_cons, heq', List.append_assoc, List.singleton_append]
        · rw [List.cons.injEq, ht', htypes', ← AllReadable]

lemma length_le_argumentsText {ts : List YType} (hts : ∀ t ∈ ts, Declarable t) :
    ts.length ≤ (argumentsText ts).length := by
  induction ts with
  | nil => exact Nat.zero_le _
  | cons t ts ih =>
    have ht : 0 < (signature t).length := by
      obtain ⟨c, s, heq, _⟩ := begins_signature (hts t List.mem_cons_self)
      rw [heq]
      exact Nat.succ_pos _
    cases ts with
    | nil => exact ht
    | cons t' ts =>
      have hrest := ih fun t' ht' => hts t' (List.mem_cons_of_mem t ht')
      rw [length_argumentsText_cons, List.length_cons]
      omega

lemma functionType_spec
    (hp : ∀ t, Declarable t → (signature t).length < fuel → ∀ rest, Ends rest →
      Reads t rest (p (signature t ++ rest)))
    {ts : List YType} (hts : ∀ t ∈ ts, Declarable t) (hfuel : (argumentsText ts).length < fuel)
    (as_const : Bool) (r : YType) (tail : Text) :
    (functionType p fuel as_const r (40 :: (argumentsText ts ++ 41 :: tail)) = none ∧
        ¬ AllReadable ts) ∨
      ∃ types, functionType p fuel as_const r (40 :: (argumentsText ts ++ 41 :: tail)) =
          some (functionT r types ⟨as_const, false⟩, tail) ∧
        (types = ts ↔ AllReadable ts) := by
  obtain ⟨n, rfl⟩ := Nat.exists_eq_add_one_of_ne_zero (Nat.ne_zero_of_lt hfuel)
  cases ts with
  | nil => exact Or.inr ⟨[], rfl, iff_of_true rfl trivial⟩
  | cons t ts =>
    have hn : ts.length < n + 1 := (Nat.lt_of_succ_le (length_le_argumentsText hts)).trans hfuel
    have htext : eatWhitespaces ((40 :: (argumentsText (t :: ts) ++ 41 :: tail)).drop 1) =
        argumentsText (t :: ts) ++ 41 :: tail :=
      ((begins_argumentsText (hts t List.mem_cons_self) ts).append _).eatWhitespaces
    obtain ⟨hnot, types, rest, heq, hrest⟩ | ⟨types, heq, htypes⟩ :=
      arguments_spec hp hts hfuel hn [] htext
    · refine Or.inl ⟨?_, hnot⟩
      rw [functionType, heq]
      exact if_neg hrest
    · refine Or.inr ⟨types, ?_, htypes⟩
      rw [functionType, heq]
      rfl

/-- At most one of the qualifiers before the result of a function. -/
def atMostOne (a b c : Bool) : Bool := !(a && b) && !((a || b) && c)

lemma length_functionT_lt (r : YType) (ts : List YType) (q : Qualifiers) :
    (signature r).length + (argumentsText ts).length < (signature (functionT r ts q)).length := by
  have hopen : (ascii " (").length = 2 := rfl
  have hbody := length_body_le (functionT r ts q)
  simp only [body, List.length_append, hopen] at hbody
  rw [signature]
  omega

lemma signature_functionT_append (r : YType) (ts : List YType) (q : Qualifiers) (tail : Text) :
    signature (functionT r ts q) ++ tail = constText q.const ++ (signature r ++
      (32 :: 40 :: (argumentsText ts ++ 41 :: (referenceText q.reference ++ tail)))) := by
  rw [signature, qualified, body]
  simp only [List.append_assoc]
  rfl

/-- A function whose result is no function. The reference sign of the function stays. -/
lemma typeOf_function
    (hp : ∀ t, Declarable t → (signature t).length < fuel → ∀ rest, Ends rest →
      Reads t rest (p (signature t ++ rest)))
    {r : YType} {ts : List YType} {q : Qualifiers} (hr : Declarable r) (hts : ∀ t ∈ ts, Declarable t)
    (hfunction : isFunction r = false) (hfuel : (signature (functionT r ts q)).length ≤ fuel)
    (as_const : Bool) (tail : Text) :
    (typeOf p fuel (constText as_const ++ (signature (functionT r ts q) ++ tail)) = none ∧
        ¬ (atMostOne as_const q.const r.isConst = true ∧ PartsReadable r ∧ AllReadable ts)) ∨
      (atMostOne as_const q.const r.isConst = true ∧ ∃ r' types, CopyOf r r' ∧
        (types = ts ↔ AllReadable ts) ∧
        typeOf p fuel (constText as_const ++ (signature (functionT r ts q) ++ tail)) =
          some (functionT
            (r'.setQualifiers (readQualifiers (as_const || q.const || r.isConst) r)) types
            ⟨as_const || q.const || r.isConst, false⟩, referenceText q.reference ++ tail)) := by
  have hlength := length_functionT_lt r ts q
  rw [signature_functionT_append]
  by_cases htwo : (as_const && q.const) = true
  · refine Or.inl ⟨?_, fun h => ?_⟩
    · rw [Bool.and_eq_true] at htwo
      rw [htwo.1, htwo.2]
      exact typeOf_const_const _
    · rw [atMostOne, htwo] at h
      exact Bool.noConfusion h.1
  · rw [Bool.not_eq_true] at htwo
    rw [← List.append_assoc, constText_append htwo]
    have htail : (eatWhitespaces (32 :: 40 :: (argumentsText ts ++
        41 :: (referenceText q.reference ++ tail)))).head? ≠ some 38 := fun h => by
      exact absurd (Option.some.inj h) (by decide)
    obtain ⟨hnone, hwhy⟩ | ⟨hone, r', hcopy, heq⟩ :=
      typeOf_spec hp hr hfunction (by omega) (as_const || q.const)
        htail
    · refine Or.inl ⟨hnone, fun h => ?_⟩
      obtain hc | hparts := hwhy
      · rw [atMostOne, hc, Bool.not_true, Bool.and_false] at h
        exact Bool.noConfusion h.1
      · exact hparts h.2.1
    · have hatMostOne : atMostOne as_const q.const r.isConst = true := by
        rw [atMostOne, htwo, hone]
        rfl
      have hopen : eatWhitespaces
          (32 :: 40 :: (argumentsText ts ++ 41 :: (referenceText q.reference ++ tail))) =
          40 :: (argumentsText ts ++ 41 :: (referenceText q.reference ++ tail)) := rfl
      rw [hopen, if_pos List.head?_cons] at heq
      obtain ⟨hnone, hnot⟩ | ⟨types, hsome, htypes⟩ := functionType_spec hp hts (by omega)
        (as_const || q.const || r.isConst)
        (r'.setQualifiers (readQualifiers (as_const || q.const || r.isConst) r))
        (referenceText q.reference ++ tail)
      · exact Or.inl ⟨heq.trans hnone, fun h => hnot h.2.2⟩
      · exact Or.inr ⟨hatMostOne, r', types, hcopy, htypes, heq.trans hsome⟩

lemma Leftover.append {left : Text} (hleft : left = [] ∨ Leftover left) {x : UInt8}
    (hx : x = 38 ∨ x = 40) (tail : Text) : Leftover (left ++ 32 :: x :: tail) := by
  obtain rfl | ⟨x', left, rfl, hx'⟩ := hleft
  · exact ⟨x, tail, rfl, hx⟩
  · exact ⟨x', left ++ 32 :: x :: tail, rfl, hx'⟩

/-- A function where a result is expected is never read to its end if more follows. -/
lemma typeOf_unfinished
    (hp : ∀ t, Declarable t → (signature t).length < fuel → ∀ rest, Ends rest →
      Reads t rest (p (signature t ++ rest)))
    {t : YType} (ht : Declarable t) (hfunction : isFunction t = true)
    (hfuel : (signature t).length ≤ fuel) (as_const : Bool) (tail : Text) :
    typeOf p fuel (constText as_const ++ (signature t ++ tail)) = none ∨
      ∃ t' left, typeOf p fuel (constText as_const ++ (signature t ++ tail)) = some (t', left ++ tail) ∧
        (left = [] ∨ Leftover left) := by
  induction ht generalizing as_const tail with
  | functionT r ts q hr hts ih _ =>
    by_cases hresult : isFunction r = true
    · rw [signature_functionT_append]
      by_cases htwo : (as_const && q.const) = true
      · rw [Bool.and_eq_true] at htwo
        rw [htwo.1, htwo.2]
        exact Or.inl (typeOf_const_const _)
      · rw [Bool.not_eq_true] at htwo
        rw [← List.append_assoc, constText_append htwo]
        have hshort : (signature r).length ≤ fuel := by
          have hlength := length_functionT_lt r ts q
          omega
        refine (ih hresult hshort _ _).imp_right fun ⟨t', left, heq, hleft⟩ => ?_
        refine ⟨t', left ++ 32 :: 40 :: (argumentsText ts ++ 41 :: referenceText q.reference), ?_,
          Or.inr (Leftover.append hleft (Or.inr rfl) _)⟩
        rw [heq]
        simp only [List.append_assoc, List.cons_append]
    · rw [Bool.not_eq_true] at hresult
      obtain ⟨hnone, _⟩ | ⟨_, r', types, _, _, heq⟩ :=
        typeOf_function hp hr hts hresult hfuel as_const tail
      · exact Or.inl hnone
      · refine Or.inr ⟨_, _, heq, ?_⟩
        cases q.reference with
        | false => exact Or.inl rfl
        | true => exact Or.inr ⟨38, [], rfl, Or.inl rfl⟩
  | _ => exact Bool.noConfusion hfunction

/-! ### All types -/

lemma CopyOf.set_eq_iff {t t' : YType} (hcopy : CopyOf t t') (q : Qualifiers) :
    t'.setQualifiers q = t ↔ PartsReadable t ∧ q = t.qualifiers := by
  rw [← hcopy.eq_iff]
  constructor
  · intro h
    have hq : q = t.qualifiers := by
      rw [← h]
      cases t' <;> rfl
    refine ⟨?_, hq⟩
    rw [hq, ← hcopy.qualifiers] at h
    rw [← h]
    cases t' <;> rfl
  · rintro ⟨rfl, rfl⟩
    cases t' <;> rfl

lemma Readable.parts {t : YType} (ht : Readable t) : PartsReadable t := by
  cases t <;> first | trivial | exact ht.1 | exact ⟨ht.1, ht.2.1⟩

lemma readable_iff {t : YType} (ht : Declarable t) (hfunction : isFunction t = false) :
    Readable t ↔ PartsReadable t ∧ readQualifiers t.isConst t = t.qualifiers := by
  have hplain (t : YType) (hwildcard : t.isWildcard = false) :
      readQualifiers t.isConst t = t.qualifiers ↔
        (t.qualifiers.const = true → t.qualifiers.reference = false) := by
    rw [readQualifiers, constructed_eq hwildcard, isReference, isConst]
    rcases t.qualifiers with ⟨_ | _, _ | _⟩ <;> decide
  cases ht with
  | base k q hk =>
    obtain ⟨_ | _, _ | _⟩ := q <;>
      simp [Readable, PartsReadable, readQualifiers, constructed, isReference, isConst, isWildcard,
        isKind, YType.qualifiers]
  | variableT t q _ => rw [hplain _ rfl, Readable, PartsReadable, YType.qualifiers]
  | listT t q _ => rw [hplain _ rfl, Readable, PartsReadable, YType.qualifiers]
  | blockT t q _ => rw [hplain _ rfl, Readable, PartsReadable, YType.qualifiers]
  | mapT k v q _ _ => rw [hplain _ rfl, Readable, PartsReadable, YType.qualifiers, and_assoc]
  | functionT r ts q _ _ => exact Bool.noConfusion hfunction

/-- What is read of a function before what may follow it inside another type. -/
lemma readable_functionT_iff {r r' : YType} {ts types : List YType} {q : Qualifiers}
    (hr : Declarable r) (hresult : isFunction r = false) (hcopy : CopyOf r r')
    (htypes : types = ts ↔ AllReadable ts) (hone : atMostOne false q.const r.isConst = true)
    (hq : q.reference = false) :
    functionT (r'.setQualifiers (readQualifiers (q.const || r.isConst) r)) types
        ⟨q.const || r.isConst, false⟩ = functionT r ts q ↔ Readable (functionT r ts q) := by
  have hqualifiers : r.qualifiers = ⟨r.isConst, r.isReference⟩ := rfl
  obtain ⟨as_const, as_reference⟩ := q
  dsimp only at hq hone
  rw [YType.functionT.injEq, hcopy.set_eq_iff, htypes, Readable, readable_iff hr hresult, hqualifiers,
    readQualifiers, readQualifiers, constructed, constructed, hq, hresult]
  generalize r.isConst = rconst at hone ⊢
  cases rconst <;> cases as_const <;> cases r.isReference <;> cases r.isWildcard <;>
    simp [atMostOne] at hone ⊢

lemma reads_typeOf
    (hp : ∀ t, Declarable t → (signature t).length < fuel → ∀ rest, Ends rest →
      Reads t rest (p (signature t ++ rest)))
    {t : YType} (ht : Declarable t) (hfuel : (signature t).length ≤ fuel) {rest : Text}
    (hrest : Ends rest) : Reads t rest (typeOf p fuel (signature t ++ rest)) := by
  by_cases hfunction : isFunction t = true
  · obtain ⟨r, ts, q, rfl⟩ : ∃ r ts q, t = functionT r ts q := by
      cases ht with
      | functionT r ts q _ _ => exact ⟨r, ts, q, rfl⟩
      | _ => exact Bool.noConfusion hfunction
    obtain ⟨hr, hts⟩ : Declarable r ∧ ∀ t ∈ ts, Declarable t := by
      cases ht with
      | functionT _ _ _ hr hts => exact ⟨hr, hts⟩
    by_cases hresult : isFunction r = true
    · refine Or.inr ⟨fun h => Bool.noConfusion (hresult.symm.trans h.2.2.1), ?_⟩
      have hshort : (signature r).length ≤ fuel := by
        have hlength := length_functionT_lt r ts q
        omega
      rw [signature_functionT_append]
      refine (typeOf_unfinished hp hr hresult hshort _ _).imp_right fun ⟨t', left, heq, hleft⟩ => ?_
      exact ⟨t', _, heq, Leftover.append hleft (Or.inr rfl) _⟩
    · rw [Bool.not_eq_true] at hresult
      obtain ⟨hnone, hnot⟩ | ⟨hone, r', types, hcopy, htypes, heq⟩ :=
        typeOf_function hp hr hts hresult hfuel false rest
      · refine Or.inr ⟨fun h => hnot ⟨?_, h.1.parts, h.2.1⟩, Or.inl hnone⟩
        rw [h.2.2.2.1, atMostOne, Bool.and_false]
        rfl
      · cases hq : q.reference with
        | true =>
          refine Or.inr ⟨fun h => ?_, Or.inr ⟨_, _, heq, ?_⟩⟩
          · rw [h.2.2.2.2.1] at hq
            exact Bool.noConfusion hq
          · rw [hq]
            exact ⟨38, rest, rfl, Or.inl rfl⟩
        | false =>
          rw [hq] at heq
          exact Or.inl ⟨_, heq, readable_functionT_iff hr hresult hcopy htypes hone hq⟩
  · rw [Bool.not_eq_true] at hfunction
    have htail : (eatWhitespaces rest).head? ≠ some 38 := by
      rw [hrest.eatWhitespaces]
      exact hrest.head?_ne.1
    obtain ⟨hnone, htwo | hparts⟩ | ⟨_, t', hcopy, heq⟩ :=
      typeOf_spec hp ht hfunction hfuel false htail
    · exact Bool.noConfusion htwo
    · exact Or.inr ⟨fun h => hparts h.parts, Or.inl hnone⟩
    · rw [hrest.eatWhitespaces, if_neg hrest.head?_ne.2, Bool.false_or] at heq
      refine Or.inl ⟨_, heq, ?_⟩
      rw [hcopy.set_eq_iff, readable_iff ht hfunction]

end Parts

lemma reads_parse (fuel : Nat) {t : YType} (ht : Declarable t) (hfuel : (signature t).length < fuel)
    {rest : Text} (hrest : Ends rest) : Reads t rest (parse fuel (signature t ++ rest)) := by
  induction fuel generalizing t rest with
  | zero => exact absurd hfuel (Nat.not_lt_zero _)
  | succ fuel ih =>
    rw [parse]
    exact reads_typeOf (fun t ht hfuel rest hrest => ih ht hfuel hrest) ht
      (Nat.le_of_lt_succ hfuel) hrest

/-- The result does not depend on the fuel beyond the length of the text. -/
lemma parse_signature_iff {fuel : Nat} {t : YType} (ht : Declarable t)
    (hfuel : (signature t).length < fuel) :
    parse fuel (signature t) = some (t, []) ↔ Readable t := by
  have hreads := reads_parse fuel ht hfuel (Or.inl rfl)
  rw [List.append_nil] at hreads
  obtain ⟨t', heq, ht'⟩ | ⟨hnot, heq | ⟨t', left, heq, x, s, rfl, _⟩⟩ := hreads
  · rw [heq, ← ht']
    simp
  · rw [heq]
    exact iff_of_false nofun hnot
  · rw [heq]
    exact iff_of_false (fun h => by simp at h) hnot

/-- `fromSignature` gives a type back from its signature, with all its qualifiers and nothing left of
the text, exactly if the type is readable. -/
theorem fromSignature_signature_iff (t : YType) (ht : Declarable t) :
    fromSignature (signature t) = some (t, []) ↔ Readable t :=
  parse_signature_iff ht (Nat.lt_succ_self _)

/-- `map <string, list <integer &>> (const any, block <void>)` -/
def mapFunction : YType :=
  functionT (mapT (base .stringT unqualified) (listT (base .integerT ⟨false, true⟩) unqualified)
    unqualified) [base .anyT ⟨true, false⟩, blockT (base .voidT unqualified) unqualified] unqualified

theorem fromSignature_signature_mapFunction :
    Declarable mapFunction ∧ fromSignature (signature mapFunction) = some (mapFunction, []) := by
  have hmap : Declarable mapFunction := by
    refine .functionT _ _ _ (.mapT _ _ _ (.base _ _ nofun) (.listT _ _ (.base _ _ nofun))) ?_
    simp only [List.mem_cons, List.not_mem_nil, or_false, forall_eq_or_imp, forall_eq]
    exact ⟨.base _ _ nofun, .blockT _ _ (.base _ _ nofun)⟩
  refine ⟨hmap, (fromSignature_signature_iff _ hmap).mpr ?_⟩
  simp [mapFunction, Readable, AllReadable, isFunction, isConst, YType.qualifiers, unqualified]

/-- The clone for the reference sign has lost the `const` of `const integer &`. -/
theorem fromSignature_signature_not :
    ¬ ∀ t, Declarable t → fromSignature (signature t) = some (t, []) := by
  intro h
  have hinteger := h (base .integerT ⟨true, true⟩) (.base _ _ nofun)
  have hread : fromSignature (signature (base .integerT ⟨true, true⟩)) =
      some (base .integerT ⟨false, true⟩, []) := rfl
  rw [hread] at hinteger
  simp at hinteger

end YastCore.Signature
