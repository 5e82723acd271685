import YastCore.Type.Match
import YastCore.Type.Bytecode
import YastCore.Code.Simulation

/-!
# Builtin declarations in bytecode

`StaticDeclaration` keeps the builtins of one name in a chain, in the order of their registration.
Bytecode names a builtin by its full name and its type, and the reader takes the first one of the
chain that accepts the type.
-/

namespace YastCore

open Codec Bytecode YType

namespace YType

mutual

/-- The types that `fromSignature` makes: without an error inside, tuples with at least one element. -/
def declared : YType → Bool
  | base k _ => k != .errorT
  | flexT _ => true
  | nFlexT _ _ => true
  | variableT t _ => declared t
  | listT t _ => declared t
  | mapT k v _ => declared k && declared v
  | blockT t _ => declared t
  | tupleT types _ => !types.isEmpty && declaredList types
  | functionT r arguments _ => declared r && declaredList arguments

def declaredList : List YType → Bool
  | [] => true
  | t :: types => declared t && declaredList types

end

lemma declaredList_iff {types : List YType} :
    declaredList types = true ↔ ∀ t ∈ types, declared t = true := by
  induction types with
  | nil => simp [declaredList]
  | cons t types ih => simp [declaredList, ih]

/-! ### A type that is read back matches itself -/

lemma basematch_same {s t : YType} (hs : s.isError = false) (ht : t.isError = false)
    (hq : s.qualifiers = t.qualifiers) (hb : s.isBasetype = t.isBasetype) :
    basematch s t = if t.isFree then 1 else 0 := by
  have hconst : (t.isReference && !t.isConst && s.isConst) = false := by
    rw [isConst, isConst, hq]
    cases t.qualifiers.const <;> simp
  unfold basematch
  rw [hs, ht, hconst, hb]
  simp

lemma constructedMatch_same {s t : YType} {parts : Option Bool} (hs : s.isError = false)
    (ht : t.isError = false) (hq : s.qualifiers = t.qualifiers) (hb : s.isBasetype = t.isBasetype)
    (hparts : parts = some true) : constructedMatch s t parts = some 0 := by
  unfold constructedMatch
  rw [basematch_same hs ht hq hb, hparts]
  cases t.isFree <;> rfl

lemma plainMatch_same {k : BaseKind} (hk : k ≠ .errorT) (q : Qualifiers) :
    plainMatch k q (base k q) = 0 := by
  have herror : (base k q).isError = false := by simp [isError, isKind, hk]
  have hmatch := basematch_same herror herror rfl rfl
  unfold plainMatch
  rw [hmatch]
  cases hfree : (base k q).isFree with
  | true => rfl
  | false => simp [isKind]

lemma matchTypes_streamedList {expected : Nat → Option YType} (esize : Nat) (wildcard : Bool)
    {types : List YType} (h : ∀ t ∈ types, matchType (streamed t) t = some 0) (index : Nat)
    (hexpected : ∀ i t, types[i]? = some t → expected (index + i) = some t) :
    matchTypes expected esize wildcard (streamedList types) index = some true := by
  induction types generalizing index with
  | nil => rfl
  | cons t types ih =>
    have hfirst : expected index = some t := hexpected 0 t rfl
    have hrest : matchTypes expected esize wildcard (streamedList types) (index + 1) = some true := by
      refine ih (fun t' ht' => h t' (List.mem_cons_of_mem t ht')) (index + 1) fun i t' hi => ?_
      rw [Nat.add_assoc, Nat.add_comm 1 i]
      exact hexpected (i + 1) t' hi
    rw [streamedList, matchTypes, hfirst]
    simp [h t List.mem_cons_self, hrest]

lemma length_streamedList (types : List YType) : (streamedList types).length = types.length := by
  rw [streamedList_eq_map, List.length_map]

theorem matchType_streamed {t : YType} (ht : t.declared = true) : matchType (streamed t) t = some 0 := by
  induction t using YType.induct with
  | base k q =>
    rw [declared, bne_iff_ne] at ht
    rw [streamed, matchType, plainMatch_same ht]
  | flexT q =>
    have hbase : basematch (base .flexT q) (flexT q) = 1 := by
      obtain ⟨c, r⟩ := q
      cases c <;> cases r <;> rfl
    rw [streamed, matchType]
    unfold plainMatch
    rw [hbase]
    rfl
  | nFlexT n q => simp [streamed, matchType, isFlex]
  | variableT t q ih =>
    rw [declared] at ht
    rw [streamed, matchType]
    exact constructedMatch_same rfl rfl rfl rfl (by simp [ih ht])
  | listT t q ih =>
    rw [declared] at ht
    rw [streamed, matchType]
    exact constructedMatch_same rfl rfl rfl rfl (by simp [ih ht])
  | mapT k v q ihk ihv =>
    rw [declared, Bool.and_eq_true] at ht
    rw [streamed, matchType]
    exact constructedMatch_same rfl rfl rfl rfl (by simp [ihk ht.1, ihv ht.2])
  | blockT t q ih =>
    rw [declared] at ht
    rw [streamed, matchType]
    exact constructedMatch_same rfl rfl rfl rfl (by simp [ih ht])
  | tupleT types q ih =>
    rw [declared, Bool.and_eq_true, declaredList_iff] at ht
    rw [streamed, matchType]
    refine constructedMatch_same rfl rfl rfl rfl ?_
    cases types with
    | nil => simp at ht
    | cons t types =>
      have hlast : (t :: types)[(t :: types).length - 1]? = some ((t :: types).getLast (by simp)) := by
        rw [← List.getLast?_eq_getElem?, List.getLast?_eq_some_getLast]
      simp only [hlast, Option.bind_eq_bind, Option.bind_some]
      refine matchTypes_streamedList _ _ (fun t' h => ih t' h (ht.2 t' h)) 0 fun i t' hi => ?_
      rwa [Nat.zero_add]
  | functionT r arguments q ihr ih =>
    rw [declared, Bool.and_eq_true, declaredList_iff] at ht
    rw [streamed, matchType]
    refine constructedMatch_same rfl rfl rfl rfl ?_
    simp only [ihr ht.1, Option.bind_eq_bind, Option.bind_some, length_streamedList]
    cases arguments with
    | nil => rfl
    | cons t arguments =>
      simp only [List.isEmpty_cons, Bool.false_eq_true, if_false, bne_self_eq_false, Bool.and_false,
        Int.lt_irrefl, streamedList]
      refine matchTypes_streamedList _ _ (fun t' h => ih t' h (ht.2 t' h)) 0 fun i t' hi => ?_
      rw [Nat.zero_add, parameterType, List.getD_eq_getElem?_getD, hi]
      rfl

end YType

/-- `"::"` -/
def nameDelimiter : Text := [58, 58]

/-- A builtin function, as it is registered. -/
structure Declaration where
  name : CText
  name_space : Option CText
  returntype : YType
  parameters : List YType
  qualifiers : Qualifiers
  /-- a name with the delimiter in it would be taken apart -/
  plain : if name_space = none then ¬ nameDelimiter <:+: name.text else ∀ n ∈ name_space, 58 ∉ n.text
  declared : (functionT returntype parameters qualifiers).declared = true
  type_fits : (functionT returntype parameters qualifiers).fits = true
  name_fits : ∀ n, (n ∈ name_space → n.text.length + 2 + name.text.length + 1 < 2 ^ 32) ∧
    name.text.length + 1 < 2 ^ 32

namespace Declaration

def type (d : Declaration) : YType := functionT d.returntype d.parameters d.qualifiers

/-- The name with its namespace, as `writeDeclaration` builds it. -/
def fullName (d : Declaration) : CText :=
  match d.name_space with
  | none => d.name
  | some n =>
    ⟨n.text ++ (nameDelimiter ++ d.name.text), by
      simp [nameDelimiter, n.nul_free, d.name.nul_free]⟩

end Declaration

/-- What `m_declTable` has under a name: the first of some overloaded declarations with the others
after it, or a namespace with its own table. -/
inductive DeclEntry where
  | overloads (chain : List Declaration)
  | name_space (table : Text → List Declaration)

/-- `m_declTable`. -/
structure StaticDeclaration where
  declTable : Text → Option DeclEntry

namespace StaticDeclaration

/-- A name split at the first delimiter. -/
def splitName : Text → Option (Text × Text)
  | 58 :: 58 :: rest => some ([], rest)
  | c :: rest => (splitName rest).map fun p => (c :: p.1, p.2)
  | [] => none

/-- `findDeclaration (name)`, with the overloads of the declaration. -/
def findDeclarations (D : StaticDeclaration) (name : Text) : List Declaration :=
  match splitName name with
  | none =>
    match D.declTable name with
    | some (.overloads chain) => chain
    | _ => []
  | some (n, rest) =>
    match D.declTable n with
    | some (.overloads chain) => chain
    | some (.name_space table) => table rest
    | none => []

/-- The loop over the actual parameter types: whether there is an error, how many were looked at and
the last declared one. -/
def parametersLoop (declared : List YType) :
    List YType → Nat → Option YType → Option (Bool × Nat × Option YType)
  | [], i, dt => some (false, i, dt)
  | a :: actual, i, dt =>
    match declared[i]? with
    | none => some (true, i, dt)
    | some d => do
      let m ← a.matchType d
      if m ≠ 0 then some (true, i, some d)
      else if d.isWildcard then some (false, i, some d)
      else parametersLoop declared actual (i + 1) (some d)

/-- Whether a declaration with the `declared` parameter types is taken for the `actual` ones. -/
def accepts (declared actual : List YType) (full : Bool) : Option Bool :=
  if actual.isEmpty then
    some (declared.isEmpty || (parameterType declared 0).isWildcard)
  else do
    let (error, i, dt) ← parametersLoop declared actual 0 none
    let missing := full && i != declared.length && !dt.any isWildcard &&
      !(parameterType declared i).isWildcard
    some (!(error || missing))

/-- `findDeclaration (decl, type, partial)`. -/
def findDeclaration (type : YType) (full : Bool) : List Declaration → Option (Option Declaration)
  | [] => some none
  | d :: chain =>
    match type with
    | functionT _ actual _ => do
      if ← accepts d.parameters actual full then some (some d)
      else findDeclaration type full chain
    | _ => findDeclaration type full chain

def writeDeclaration (d : Declaration) : Bytes := writeCharp d.fullName ++ d.type.toStream

def readDeclaration (D : StaticDeclaration) : CodeReader Declaration := do
  let name ← readCharp
  let type ← readType
  match findDeclaration type true (D.findDeclarations name.text) with
  | none => throw .nullHandle
  | some none => throw .invalid
  | some (some d) => return d

/-- The declarations of the name of `d`. -/
def chainOf (D : StaticDeclaration) (d : Declaration) : List Declaration :=
  match d.name_space with
  | none =>
    match D.declTable d.name.text with
    | some (.overloads chain) => chain
    | _ => []
  | some n =>
    match D.declTable n.text with
    | some (.name_space table) => table d.name.text
    | _ => []

/-! ### The name -/

lemma splitName_eq_none {t : Text} (h : ¬ nameDelimiter <:+: t) : splitName t = none := by
  induction t using splitName.induct with
  | case1 rest =>
    have hinfix : nameDelimiter <:+: 58 :: 58 :: rest := ⟨[], rest, rfl⟩
    exact absurd hinfix h
  | case2 c rest hne ih =>
    have hrest : ¬ nameDelimiter <:+: rest := fun hi => h (hi.trans (List.suffix_cons c rest).isInfix)
    rw [splitName, ih hrest]
    · rfl
    · exact hne
  | case3 => rfl

lemma splitName_append {n : Text} (h : 58 ∉ n) (rest : Text) :
    splitName (n ++ (nameDelimiter ++ rest)) = some (n, rest) := by
  induction n with
  | nil => rfl
  | cons c n ih =>
    have hc : c ≠ 58 := fun hc => h (hc ▸ List.mem_cons_self)
    have hn : 58 ∉ n := fun hn => h (List.mem_cons_of_mem c hn)
    rw [List.cons_append, splitName, ih hn]
    · rfl
    · intro rest' hcolon
      exact absurd hcolon hc

/-- The reader finds the declarations of the name. -/
lemma findDeclarations_fullName (D : StaticDeclaration) {d : Declaration} (h : D.chainOf d ≠ []) :
    D.findDeclarations d.fullName.text = D.chainOf d := by
  have hplain := d.plain
  unfold findDeclarations chainOf Declaration.fullName
  unfold chainOf at h
  cases hns : d.name_space with
  | none =>
    rw [hns, if_pos rfl] at hplain
    simp only [splitName_eq_none hplain]
  | some n =>
    rw [hns, if_neg (by simp)] at hplain
    simp only [splitName_append (hplain n rfl)]
    simp only [hns] at h
    cases hentry : D.declTable n.text with
    | none => rfl
    | some e =>
      cases e with
      | overloads chain =>
        rw [hentry] at h
        exact absurd rfl h
      | name_space table => rfl

lemma fullName_fits (d : Declaration) : d.fullName.Fits := by
  unfold CText.Fits Declaration.fullName
  cases hns : d.name_space with
  | none => exact (d.name_fits d.name).2
  | some n =>
    have hlt := (d.name_fits n).1 (by rw [hns]; rfl)
    simp only [nameDelimiter, List.length_append, List.length_cons, List.length_nil]
    omega

/-! ### The parameters -/

/-- A declaration is taken for its own parameter types. -/
lemma parametersLoop_self {parameters : List YType} (hdeclared : ∀ t ∈ parameters, t.declared = true)
    (before after : List YType) (hsplit : parameters = before ++ after) (dt : Option YType) :
    ∃ i dt', parametersLoop parameters (streamedList after) before.length dt = some (false, i, dt') ∧
      (i = parameters.length ∨ dt'.any isWildcard = true) := by
  induction after generalizing before dt with
  | nil => exact ⟨before.length, dt, rfl, .inl (by rw [hsplit, List.append_nil])⟩
  | cons t after ih =>
    have hget : parameters[before.length]? = some t := by rw [hsplit]; simp
    have hmem : t ∈ parameters := by rw [hsplit]; simp
    rw [streamedList, parametersLoop, hget]
    simp only [matchType_streamed (hdeclared t hmem), Option.bind_eq_bind, Option.bind_some, ne_eq,
      not_true_eq_false, if_false]
    cases hwild : t.isWildcard with
    | true => exact ⟨before.length, some t, by simp, .inr (by simpa using hwild)⟩
    | false =>
      obtain ⟨i, dt', hloop, hend⟩ := ih (before ++ [t]) (by rw [hsplit]; simp) (some t)
      rw [List.length_append] at hloop
      exact ⟨i, dt', hloop, hend⟩

lemma accepts_self {parameters : List YType} (hdeclared : ∀ t ∈ parameters, t.declared = true) :
    accepts parameters (streamedList parameters) true = some true := by
  obtain ⟨i, dt, hloop, hend⟩ := parametersLoop_self hdeclared [] parameters rfl none
  rw [List.length_nil] at hloop
  unfold accepts
  rw [hloop]
  cases parameters with
  | nil => rfl
  | cons t parameters =>
    rcases hend with hi | hdt
    · simp [streamedList, hi]
    · simp [streamedList, hdt]

/-! ### The chain -/

section Chain

variable {returntype : YType} {actual : List YType} {q : Qualifiers} {full : Bool}

lemma findDeclaration_of_rejected {before : List Declaration}
    (h : ∀ e ∈ before, accepts e.parameters actual full = some false) (rest : List Declaration) :
    findDeclaration (functionT returntype actual q) full (before ++ rest) =
      findDeclaration (functionT returntype actual q) full rest := by
  induction before with
  | nil => rfl
  | cons e before ih =>
    rw [List.cons_append, findDeclaration, h e List.mem_cons_self]
    exact ih fun e' he' => h e' (List.mem_cons_of_mem e he')

/-- If the search gets past some declarations to one that is not among them, none of them was taken. -/
lemma rejected_of_findDeclaration {before rest : List Declaration} {d : Declaration} (hd : d ∉ before)
    (h : findDeclaration (functionT returntype actual q) full (before ++ rest) = some (some d)) :
    ∀ e ∈ before, accepts e.parameters actual full = some false := by
  induction before with
  | nil => simp
  | cons e before ih =>
    rw [List.cons_append, findDeclaration] at h
    rw [List.mem_cons, not_or] at hd
    cases haccepts : accepts e.parameters actual full with
    | none =>
      rw [haccepts] at h
      simp at h
    | some b =>
      cases b with
      | true =>
        rw [haccepts] at h
        simp only [Option.bind_eq_bind, Option.bind_some, if_true, Option.some.injEq] at h
        exact absurd h.symm hd.1
      | false =>
        rw [haccepts] at h
        exact List.forall_mem_cons.mpr ⟨haccepts, ih hd.2 h⟩

end Chain

/-- The reader goes on to the search with what the writer wrote. -/
lemma readDeclaration_writeDeclaration (D : StaticDeclaration) {d : Declaration} (h : D.chainOf d ≠ [])
    (st : ReaderState) (rest : Bytes) :
    D.readDeclaration (writeDeclaration d ++ rest, st) =
      match findDeclaration (streamed d.type) true (D.chainOf d) with
      | none => .error .nullHandle
      | some none => .error .invalid
      | some (some e) => .ok (e, (rest, st)) := by
  have hname := reads_writeCharp (fullName_fits d) st (d.type.toStream ++ rest)
  have htype : readType (d.type.toStream ++ rest, st) = .ok (streamed d.type, (rest, st)) :=
    reads_readType st d.type_fits rest
  unfold readDeclaration writeDeclaration
  rw [List.append_assoc, Exec.bind_of_ok hname, Exec.bind_of_ok htype, findDeclarations_fullName D h]
  rcases findDeclaration (streamed d.type) true (D.chainOf d) with _ | _ | e <;> rfl

/-- A builtin comes back from bytecode exactly when none of the declarations registered before it under
its name is taken for its parameter types. -/
theorem readDeclaration_writeDeclaration_iff (D : StaticDeclaration) (d : Declaration)
    (before after : List Declaration) (hchain : D.chainOf d = before ++ d :: after)
    (hdiff : (D.chainOf d).Pairwise fun e e' => e.parameters ≠ e'.parameters) (st : ReaderState) :
    (∀ rest, D.readDeclaration (writeDeclaration d ++ rest, st) = .ok (d, (rest, st))) ↔
    ∀ e ∈ before, accepts e.parameters (streamedList d.parameters) true = some false := by
  have hne : D.chainOf d ≠ [] := by
    rw [hchain]
    simp
  have htype : streamed d.type =
      functionT (streamed d.returntype) (streamedList d.parameters) d.qualifiers := by
    rw [Declaration.type, streamed]
  have hmem : d ∉ before := by
    intro hd
    rw [hchain] at hdiff
    exact (List.pairwise_append.mp hdiff).2.2 d hd d List.mem_cons_self rfl
  constructor
  · intro hread
    have hfound : findDeclaration (streamed d.type) true (D.chainOf d) = some (some d) := by
      have hst := hread []
      rw [readDeclaration_writeDeclaration D hne] at hst
      rcases hsearch : findDeclaration (streamed d.type) true (D.chainOf d) with _ | _ | e
      · simp [hsearch] at hst
      · simp [hsearch] at hst
      · simp only [hsearch, Except.ok.injEq, Prod.mk.injEq] at hst
        rw [hst.1]
    rw [htype, hchain] at hfound
    exact rejected_of_findDeclaration hmem hfound
  · intro hreject rest
    have hdeclared := d.declared
    rw [YType.declared, Bool.and_eq_true, declaredList_iff] at hdeclared
    rw [readDeclaration_writeDeclaration D hne, htype, hchain, findDeclaration_of_rejected hreject,
      findDeclaration, accepts_self hdeclared.2]
    rfl

/-! ### The operator `+` on lists -/

def constant : Qualifiers := ⟨true, false⟩

/-- A builtin `+`. -/
def plus (returntype : YType) (parameters : List YType)
    (declared : (functionT returntype parameters unqualified).declared = true)
    (type_fits : (functionT returntype parameters unqualified).fits = true) : Declaration where
  name := ⟨[43], by decide⟩
  name_space := none
  returntype := returntype
  parameters := parameters
  qualifiers := unqualified
  plain := by
    rw [if_pos rfl]
    intro h
    have hle := h.length_le
    simp [nameDelimiter] at hle
  declared := declared
  type_fits := type_fits
  name_fits := fun n => ⟨fun h => by simp at h, by decide⟩

/-- `list <flex> (const list <flex>, const list <flex>)` -/
def plusUnion : Declaration :=
  plus (listT (flexT unqualified) unqualified)
    [listT (flexT unqualified) constant, listT (flexT unqualified) constant] rfl rfl

/-- `list <flex> (const list <flex>, const flex)` -/
def plusFlex : Declaration :=
  plus (listT (flexT unqualified) unqualified)
    [listT (flexT unqualified) constant, flexT constant] rfl rfl

/-- `list <any> (const list <any>, any)` -/
def plusAny : Declaration :=
  plus (listT (base .anyT unqualified) unqualified)
    [listT (base .anyT unqualified) constant, base .anyT unqualified] rfl rfl

/-- What `YCPBuiltinList` registers for `+`. -/
def plusTable : StaticDeclaration where
  declTable name := if name = [43] then some (.overloads [plusUnion, plusFlex, plusAny]) else none

lemma plusTable_diff : [plusUnion, plusFlex, plusAny].Pairwise fun e e' => e.parameters ≠ e'.parameters := by
  simp [plusUnion, plusFlex, plusAny, plus]

/-- The state before anything is read. -/
def initialState : ReaderState :=
  ⟨⟨[], 0⟩, fun _ => [], ⟨0, fun _ => [], fun _ => .null⟩⟩

/-- The second of the builtins comes back. -/
theorem readDeclaration_plusFlex :
    (∀ rest, plusTable.readDeclaration (writeDeclaration plusFlex ++ rest, initialState) =
      .ok (plusFlex, (rest, initialState))) ∧
    ∀ e ∈ [plusUnion], accepts e.parameters (streamedList plusFlex.parameters) true = some false := by
  have hreject : ∀ e ∈ [plusUnion],
      accepts e.parameters (streamedList plusFlex.parameters) true = some false := by
    intro e he
    rw [List.mem_singleton.mp he]
    rfl
  have hiff := readDeclaration_writeDeclaration_iff plusTable plusFlex [plusUnion] [plusAny] rfl
    plusTable_diff initialState
  exact ⟨hiff.mpr hreject, hreject⟩

/-- The third one does not: the second one is taken for it. -/
theorem readDeclaration_plusAny :
    plusAny ∈ plusTable.chainOf plusAny ∧
    ((plusTable.chainOf plusAny).Pairwise fun e e' => e.parameters ≠ e'.parameters) ∧
    plusTable.readDeclaration (writeDeclaration plusAny, initialState) =
      .ok (plusFlex, ([], initialState)) ∧
    plusFlex.parameters ≠ plusAny.parameters := by
  have hfind : findDeclaration (streamed plusAny.type) true (plusTable.chainOf plusAny) =
      some (some plusFlex) := rfl
  have hchain : plusTable.chainOf plusAny ≠ [] := List.cons_ne_nil _ _
  have hread := readDeclaration_writeDeclaration plusTable hchain initialState []
  rw [List.append_nil, hfind] at hread
  refine ⟨?_, plusTable_diff, hread, ?_⟩
  · have hmem : plusAny ∈ [plusUnion, plusFlex, plusAny] := by simp
    exact hmem
  · simp [plusFlex, plusAny, plus]

end StaticDeclaration

end YastCore
