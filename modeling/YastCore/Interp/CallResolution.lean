import Mathlib.Data.List.Forall2
import YastCore.Type.Flex
import YastCore.Type.Match

/-!
# The function that a call means

`YECall` collects the parameters of a call with their types, and `finalize` looks for the overloaded function
that takes them. It compares the collected types first, and then the types that the codes themselves have.
-/

namespace YastCore.Interp.CallResolution

open YType

/-- The code of a parameter, as far as the search looks at it. A variable has the type of its entry. -/
inductive ParameterCode where
  | yeVariable (entry : EntryRef) (type : YType)
  | yBlock (type : YType)
  | yeReference (entry : EntryRef) (type : YType)
  | yePropagate (m_value : ParameterCode) (m_from m_to : YType)
  | other (code : CodePtr) (type : YType)

namespace ParameterCode

def type : ParameterCode → YType
  | yeVariable _ type => type
  | yBlock type => type
  | yeReference _ type => type.asReference
  | yePropagate _ _ m_to => m_to
  | other _ type => type

def isBlock : ParameterCode → Bool
  | yBlock _ => true
  | _ => false

def isReferenceable : ParameterCode → Bool
  | yeVariable _ _ => true
  | _ => false

/-- `new YEReference (var->entry ())` -/
def toReference : ParameterCode → ParameterCode
  | yeVariable entry type => yeReference entry type
  | code => code

end ParameterCode

/-- A slot of `m_parameters` with that of `m_parameter_types`. -/
structure CallParameter where
  code : ParameterCode
  type : YType

/-- An entry of the symbol table, with the types of the parameters of its function. -/
structure CallEntry where
  sentry : EntryRef
  parameters : List YType

/-- The chain from `m_entry` on, how many slots are allocated, and the slots up to `m_next_param_id`. -/
structure Call where
  m_entry : List CallEntry
  m_sentry : Option EntryRef
  allocated : ℕ
  m_parameters : List CallParameter

/-- The loop over the chain for the maximal number of parameters. -/
def maxParameters : List CallEntry → ℕ
  | [] => 0
  | t :: chain => max t.parameters.length (maxParameters chain)

/-- The constructor. -/
def YECall (entry : List CallEntry) : Call := ⟨entry, entry.head?.map CallEntry.sentry, maxParameters entry, []⟩

def unspecType : YType := base .unspecT unqualified

def voidType : YType := base .voidT unqualified

/-- The call after `attachParameter`, what it returned, `none` for 0, and the slot that it wrote. -/
structure AttachReply where
  call : Call
  result : Option YType
  written : Option ℕ

namespace Call

def attachParameter (call : Call) (code : Option ParameterCode) (type : YType) : AttachReply :=
  match code with
  | none => ⟨call, some unspecType, none⟩
  | some code =>
    if call.allocated = 0 then ⟨call, some (base .errorT unqualified), none⟩
    else if maxParameters call.m_entry ≤ call.m_parameters.length then ⟨call, some (base .errorT unqualified), none⟩
    else
      ⟨{ call with m_parameters := call.m_parameters ++ [⟨code, type⟩] }, none, some call.m_parameters.length⟩

end Call

def expectsBlock : YType → Bool
  | blockT _ _ => true
  | _ => false

/-- The type of a parameter where a block may be expected. -/
def givenType (code : ParameterCode) (type expected_type : YType) : YType :=
  if expectsBlock expected_type && code.isBlock then
    blockT (if type.isUnspec then voidType else type) unqualified
  else type

/-- One turn of the loop that checks; `none` where the types cannot be compared. -/
def checkParameter (p : CallParameter) (expected_type : YType) : Option Bool :=
  (matchType (givenType p.code p.type expected_type) expected_type).map fun m =>
    if m < 0 then false
    else if expected_type.isReference then p.code.isReferenceable && !decide (0 < m)
    else true

def checkParameters : List CallParameter → List YType → Option Bool
  | p :: parameters, expected_type :: types => do
    let accept ← checkParameter p expected_type
    if accept then checkParameters parameters types else some false
  | _, _ => some true

/-- One turn of the loop that adapts the code. -/
def adaptParameter (p : CallParameter) (expected_type : YType) : Option CallParameter :=
  let type := givenType p.code p.code.type expected_type
  (matchType type expected_type).map fun m : Int =>
    let code := if expected_type.isReference then p.code.toReference else p.code
    { p with code := if 0 < m then .yePropagate code type expected_type else code }

def adaptParameters : List CallParameter → List YType → Option (List CallParameter)
  | p :: parameters, expected_type :: types => do
    let adapted ← adaptParameter p expected_type
    let rest ← adaptParameters parameters types
    some (adapted :: rest)
  | parameters, _ => some parameters

namespace Call

/-- The loop of `finalize` from an entry on: the call, and what is returned, `none` for 0. -/
def finalizeFrom (call : Call) : List CallEntry → Option (Call × Option YType)
  | [] => some (call, some (base .errorT unqualified))
  | entry :: next_overloaded =>
    if call.m_parameters.length ≠ entry.parameters.length then call.finalizeFrom next_overloaded
    else do
      let accept ← checkParameters call.m_parameters entry.parameters
      if accept then
        let m_parameters ← adaptParameters call.m_parameters entry.parameters
        some ({ call with
          m_entry := entry :: next_overloaded
          m_sentry := some entry.sentry
          m_parameters := m_parameters }, none)
      else call.finalizeFrom next_overloaded

def finalize (call : Call) : Option (Call × Option YType) := call.finalizeFrom call.m_entry

end Call

/-! ### What the search promises -/

/-- A call of `attachParameter`; a code that is null or an error is `none`. -/
structure AttachRequest where
  code : Option ParameterCode
  type : YType

def AttachRequest.parameter (request : AttachRequest) : Option CallParameter :=
  request.code.map fun code => ⟨code, request.type⟩

def Call.attachAll (call : Call) (requests : List AttachRequest) : Call :=
  requests.foldl (fun call request => (call.attachParameter request.code request.type).call) call

/-- The parameters that the requests attach, as long as there is room. -/
def attached (chain : List CallEntry) (requests : List AttachRequest) : List CallParameter :=
  (requests.filterMap AttachRequest.parameter).take (maxParameters chain)

/-- The match of the type that was attached. -/
def Matches (p : CallParameter) (expected_type : YType) (m : Int) : Prop :=
  matchType (givenType p.code p.type expected_type) expected_type = some m

/-- A parameter type accepts a parameter: a reference takes a referenceable code without propagation. -/
def Fits (p : CallParameter) (expected_type : YType) : Prop :=
  ∃ m, Matches p expected_type m ∧ 0 ≤ m ∧
    (expected_type.isReference = true → p.code.isReferenceable = true ∧ m ≤ 0)

/-- The arity is that of the parameters, and each parameter type accepts its parameter. -/
def Accepts (entry : CallEntry) (parameters : List CallParameter) : Prop :=
  List.Forall₂ Fits parameters entry.parameters

/-- The entry at the head of the rest is the first one that accepts. -/
def FirstAccepting (chain : List CallEntry) (parameters : List CallParameter) (entry : CallEntry)
    (rest : List CallEntry) : Prop :=
  ∃ before, chain = before ++ entry :: rest ∧ (∀ e ∈ before, ¬ Accepts e parameters) ∧ Accepts entry parameters

/-- A reference is put in the place of a variable, a propagation around a code that matches by it, and other
codes stay. -/
def IsAdapted (p : CallParameter) (expected_type : YType) (q : CallParameter) : Prop :=
  q.type = p.type ∧
    if expected_type.isReference then q.code = p.code.toReference
    else
      ∃ m, Matches p expected_type m ∧
        if 0 < m then ∃ from_, q.code = .yePropagate p.code from_ expected_type else q.code = p.code

def AreAdapted : List CallParameter → List YType → List CallParameter → Prop
  | [], [], [] => True
  | p :: parameters, expected_type :: types, q :: adapted =>
    IsAdapted p expected_type q ∧ AreAdapted parameters types adapted
  | _, _, _ => False

/-- What the search over a chain leaves and returns: for the first entry that accepts, or the call as it was. -/
structure FinalizesRight (call : Call) (chain : List CallEntry) (result : Call × Option YType) : Prop where
  selects : ∀ entry rest, FirstAccepting chain call.m_parameters entry rest →
    ∃ adapted, AreAdapted call.m_parameters entry.parameters adapted ∧
      result = ({ call with
        m_entry := entry :: rest
        m_sentry := some entry.sentry
        m_parameters := adapted }, none)
  rejects : (∀ entry ∈ chain, ¬ Accepts entry call.m_parameters) →
    result = (call, some (base .errorT unqualified))

/-- Each request stays within the slots, and what does not attach a parameter leaves the call as it was. -/
def AttachesRight (chain : List CallEntry) (requests : List AttachRequest) : Prop :=
  ∀ before request after, requests = before ++ request :: after →
    let call := (YECall chain).attachAll before
    let reply := call.attachParameter request.code request.type
    call.m_parameters = attached chain before ∧ (∀ i, reply.written = some i → i < call.allocated) ∧
      (call.m_parameters.length = maxParameters chain → reply.call = call ∧ reply.result ≠ none) ∧
      (request.code = none → reply.call = call ∧ reply.result ≠ none)

/-- The types can be compared, up to the first parameter that does not fit. -/
def Compared : List CallParameter → List YType → Prop
  | p :: parameters, expected_type :: types =>
    (∃ m, Matches p expected_type m) ∧ (Fits p expected_type → Compared parameters types)
  | _, _ => True

/-- The same for the entries of the right arity, up to the first one that accepts. -/
def ComparedChain (parameters : List CallParameter) : List CallEntry → Prop
  | [] => True
  | entry :: chain =>
    (parameters.length = entry.parameters.length → Compared parameters entry.parameters) ∧
      (¬ Accepts entry parameters → ComparedChain parameters chain)

/-- The attached type and the type of the code itself match by propagation, or neither does. -/
def Agrees (p : CallParameter) (expected_type : YType) : Prop :=
  ∃ m m', Matches p expected_type m ∧
    matchType (givenType p.code p.code.type expected_type) expected_type = some m' ∧ (0 < m' ↔ 0 < m)

/-- This holds of all parameters at the entry that accepts them. -/
def AgreesAtFirst (chain : List CallEntry) (parameters : List CallParameter) : Prop :=
  ∀ entry rest, FirstAccepting chain parameters entry rest → List.Forall₂ Agrees parameters entry.parameters

/-! ### Attaching -/

section

variable {call : Call} {chain : List CallEntry} {parameters : List CallParameter} {types : List YType}
  {p : CallParameter} {expected_type : YType}

/-- The slots are those of the chain, and there is room for the parameters in them. -/
structure Call.Roomy (call : Call) (chain : List CallEntry) : Prop where
  entry : call.m_entry = chain
  allocated : call.allocated = maxParameters chain
  fits : call.m_parameters.length ≤ maxParameters chain

lemma attach_null (call : Call) (type : YType) :
    call.attachParameter none type = ⟨call, some unspecType, none⟩ := rfl

lemma attach_full (h : call.Roomy chain) (hfull : call.m_parameters.length = maxParameters chain)
    (code : ParameterCode) (type : YType) :
    call.attachParameter (some code) type = ⟨call, some (base .errorT unqualified), none⟩ := by
  rw [Call.attachParameter]
  by_cases hnone : call.allocated = 0
  · rw [if_pos hnone]
  · rw [if_neg hnone, h.entry, if_pos (Nat.le_of_eq hfull.symm)]

lemma attach_room (h : call.Roomy chain) (hroom : call.m_parameters.length < maxParameters chain)
    (code : ParameterCode) (type : YType) :
    call.attachParameter (some code) type =
      ⟨{ call with m_parameters := call.m_parameters ++ [⟨code, type⟩] }, none, some call.m_parameters.length⟩ := by
  have hsome : call.allocated ≠ 0 := by
    rw [h.allocated]
    omega
  rw [Call.attachParameter, if_neg hsome, h.entry, if_neg (Nat.not_le.mpr hroom)]

lemma roomy_new (chain : List CallEntry) : (YECall chain).Roomy chain := ⟨rfl, rfl, Nat.zero_le _⟩

/-- One request keeps the room and adds to the parameters as long as there is any. -/
lemma attach_step (h : call.Roomy chain) (request : AttachRequest) :
    let next := (call.attachParameter request.code request.type).call
    next.Roomy chain ∧
      next.m_parameters = (call.m_parameters ++ request.parameter.toList).take (maxParameters chain) := by
  obtain ⟨code, type⟩ := request
  cases code with
  | none =>
    refine ⟨h, ?_⟩
    rw [attach_null]
    simp [AttachRequest.parameter, List.take_of_length_le h.fits]
  | some code =>
    rcases Nat.lt_or_eq_of_le h.fits with hroom | hfull
    · rw [attach_room h hroom]
      refine ⟨⟨h.entry, h.allocated, ?_⟩, ?_⟩
      · simp
        omega
      · rw [List.take_of_length_le]
        · rfl
        · simp [AttachRequest.parameter]
          omega
    · rw [attach_full h hfull]
      refine ⟨h, ?_⟩
      rw [List.take_append_of_le_length (Nat.le_of_eq hfull.symm), List.take_of_length_le h.fits]

lemma take_take_append {α : Type} (n : ℕ) (l rest : List α) : (l.take n ++ rest).take n = (l ++ rest).take n := by
  rcases Nat.le_total l.length n with hle | hge
  · rw [List.take_of_length_le hle]
  · rw [List.take_append_of_le_length hge, List.take_append_of_le_length (by simp [hge]), List.take_take, Nat.min_self]

lemma filterMap_cons_toList {α β : Type} (f : α → Option β) (a : α) (l : List α) :
    (a :: l).filterMap f = (f a).toList ++ l.filterMap f := by
  cases h : f a with
  | none => simp [h]
  | some b => simp [h]

/-- All requests together leave the parameters there is room for. -/
theorem attachAll_spec (h : call.Roomy chain) (requests : List AttachRequest) :
    (call.attachAll requests).Roomy chain ∧
      (call.attachAll requests).m_parameters =
        (call.m_parameters ++ requests.filterMap AttachRequest.parameter).take (maxParameters chain) := by
  induction requests generalizing call with
  | nil =>
    refine ⟨h, ?_⟩
    simp [Call.attachAll, List.take_of_length_le h.fits]
  | cons request requests ih =>
    obtain ⟨hroomy, hparameters⟩ := attach_step h request
    obtain ⟨hall, hparametersAll⟩ := ih hroomy
    refine ⟨hall, hparametersAll.trans ?_⟩
    rw [hparameters, take_take_append, List.append_assoc, ← filterMap_cons_toList]

theorem attached_eq (chain : List CallEntry) (requests : List AttachRequest) :
    ((YECall chain).attachAll requests).m_parameters = attached chain requests :=
  (attachAll_spec (roomy_new chain) requests).2

theorem attachesRight (chain : List CallEntry) (requests : List AttachRequest) : AttachesRight chain requests := by
  intro before request after _
  obtain ⟨hroomy, hparameters⟩ := attachAll_spec (roomy_new chain) before
  obtain ⟨code, type⟩ := request
  refine ⟨hparameters, ?_, ?_, ?_⟩
  · intro i hi
    cases code with
    | none => cases hi
    | some code =>
      rcases Nat.lt_or_eq_of_le hroomy.fits with hroom | hfull
      · simp only [attach_room hroomy hroom, Option.some.injEq] at hi
        rw [← hi, hroomy.allocated]
        exact hroom
      · simp only [attach_full hroomy hfull] at hi
        cases hi
  · intro hfull
    cases code with
    | none => exact ⟨rfl, Option.some_ne_none _⟩
    | some code =>
      have hreply := attach_full hroomy hfull code type
      exact ⟨congrArg AttachReply.call hreply, ne_of_eq_of_ne (congrArg AttachReply.result hreply) (by simp)⟩
  · rintro rfl
    exact ⟨rfl, Option.some_ne_none _⟩

/-! ### Checking and adapting the parameters -/

lemma matches_unique {m m' : Int} (h : Matches p expected_type m) (h' : Matches p expected_type m') : m = m' :=
  Option.some.inj (h.symm.trans h')

/-- One turn tells whether the parameter fits. -/
lemma checkParameter_eq {m : Int} (h : Matches p expected_type m) :
    ∃ b, checkParameter p expected_type = some b ∧ (b = true ↔ Fits p expected_type) := by
  refine ⟨_, by rw [checkParameter, h]; rfl, ?_⟩
  have hfits : Fits p expected_type ↔
      0 ≤ m ∧ (expected_type.isReference = true → p.code.isReferenceable = true ∧ m ≤ 0) := by
    constructor
    · rintro ⟨m', hm', hfits⟩
      rw [matches_unique h hm']
      exact hfits
    · intro hfits
      exact ⟨m, h, hfits⟩
  rw [hfits]
  by_cases hneg : m < 0
  · simp [hneg, Int.not_le.mpr hneg]
  · cases href : expected_type.isReference with
    | true => simp [hneg, Int.not_lt.mp hneg]
    | false => simp [hneg, Int.not_lt.mp hneg]

lemma checkParameter_none (h : ¬ ∃ m, Matches p expected_type m) : checkParameter p expected_type = none := by
  cases hmatch : matchType (givenType p.code p.type expected_type) expected_type with
  | none => rw [checkParameter, hmatch, Option.map_none]
  | some m => exact absurd ⟨m, hmatch⟩ h

/-- The loop tells whether all parameters fit, if it can compare them. -/
lemma checkParameters_eq (hlen : parameters.length = types.length) (h : Compared parameters types) :
    ∃ b, checkParameters parameters types = some b ∧ (b = true ↔ List.Forall₂ Fits parameters types) := by
  induction parameters generalizing types with
  | nil =>
    cases types with
    | nil => exact ⟨true, rfl, iff_of_true rfl .nil⟩
    | cons _ _ => cases hlen
  | cons p parameters ih =>
    cases types with
    | nil => cases hlen
    | cons expected_type types =>
      obtain ⟨⟨m, hm⟩, hrest⟩ := h
      obtain ⟨b, hb, hbfits⟩ := checkParameter_eq hm
      rw [checkParameters, hb, List.forall₂_cons]
      cases b with
      | false => exact ⟨false, rfl, iff_of_false Bool.false_ne_true fun hall => Bool.false_ne_true (hbfits.mpr hall.1)⟩
      | true =>
        obtain ⟨b', hb', hbfits'⟩ := ih (Nat.succ.inj hlen) (hrest (hbfits.mp rfl))
        refine ⟨b', hb', ?_⟩
        rw [hbfits', and_iff_right (hbfits.mp rfl)]

lemma checkParameters_none (hlen : parameters.length = types.length) (h : ¬ Compared parameters types) :
    checkParameters parameters types = none := by
  induction parameters generalizing types with
  | nil =>
    cases types with
    | nil => exact absurd trivial h
    | cons _ _ => cases hlen
  | cons p parameters ih =>
    cases types with
    | nil => cases hlen
    | cons expected_type types =>
      rw [checkParameters]
      by_cases hm : ∃ m, Matches p expected_type m
      · obtain ⟨m, hm⟩ := hm
        obtain ⟨b, hb, hbfits⟩ := checkParameter_eq hm
        have hnot : b = true ∧ ¬ Compared parameters types := by
          by_contra hcontra
          refine h ⟨⟨m, hm⟩, fun hfits => ?_⟩
          by_contra hcompared
          exact hcontra ⟨hbfits.mpr hfits, hcompared⟩
        rw [hb, hnot.1]
        exact ih (Nat.succ.inj hlen) hnot.2
      · rw [checkParameter_none hm]
        rfl

lemma propagate_ne (code : ParameterCode) (m_from m_to : YType) : code ≠ .yePropagate code m_from m_to := by
  intro h
  have hsize := congrArg sizeOf h
  simp only [ParameterCode.yePropagate.sizeOf_spec] at hsize
  omega

lemma toReference_ne_propagate {code : ParameterCode} (h : code.isReferenceable = true)
    (m_value : ParameterCode) (m_from m_to : YType) : .yePropagate m_value m_from m_to ≠ code.toReference := by
  intro heq
  cases code with
  | yeVariable entry type => cases heq
  | yBlock _ => cases h
  | yeReference _ _ => cases h
  | yePropagate _ _ _ => cases h
  | other _ _ => cases h

/-- One turn adapts a parameter right where its two types agree. -/
lemma adaptParameter_iff (hfits : Fits p expected_type) :
    (∃ q, adaptParameter p expected_type = some q ∧ IsAdapted p expected_type q) ↔ Agrees p expected_type := by
  obtain ⟨m, hm, hnonneg, href⟩ := hfits
  rw [adaptParameter]
  cases hown : matchType (givenType p.code p.code.type expected_type) expected_type with
  | none =>
    refine iff_of_false ?_ ?_
    · rintro ⟨q, hq, -⟩
      cases hq
    · rintro ⟨m₁, m', -, hm', -⟩
      rw [hown] at hm'
      cases hm'
  | some m' =>
    have hagrees : Agrees p expected_type ↔ (0 < m' ↔ 0 < m) := by
      constructor
      · rintro ⟨m₁, m'', hm₁, hm'', hiff⟩
        rw [matches_unique hm hm₁]
        rw [hown, Option.some.injEq] at hm''
        rw [hm'']
        exact hiff
      · intro hiff
        exact ⟨m, m', hm, hown, hiff⟩
    rw [hagrees]
    constructor
    · rintro ⟨q, hq, hadapted⟩
      rw [Option.map_some, Option.some.injEq] at hq
      subst hq
      obtain ⟨-, hcode⟩ := hadapted
      cases hreference : expected_type.isReference with
      | true =>
        obtain ⟨hreferenceable, hle⟩ := href hreference
        refine iff_of_false (fun hpos => ?_) (Int.not_lt.mpr hle)
        simp only [hreference, if_true, if_pos hpos] at hcode
        exact toReference_ne_propagate hreferenceable _ _ _ hcode
      | false =>
        simp only [hreference, if_false, Bool.false_eq_true] at hcode
        obtain ⟨m₁, hm₁, hcode⟩ := hcode
        rw [matches_unique hm₁ hm] at hcode
        constructor
        · intro hpos
          by_contra hnot
          rw [if_pos hpos, if_neg hnot] at hcode
          exact propagate_ne _ _ _ hcode.symm
        · intro hpos
          by_contra hnot
          rw [if_neg hnot, if_pos hpos] at hcode
          obtain ⟨from_, hcode⟩ := hcode
          exact propagate_ne _ _ _ hcode
    · intro hiff
      refine ⟨_, rfl, rfl, ?_⟩
      cases hreference : expected_type.isReference with
      | true =>
        have hnot : ¬ 0 < m' := fun hpos => absurd (hiff.mp hpos) (Int.not_lt.mpr (href hreference).2)
        simp only [if_true, if_neg hnot]
      | false =>
        simp only [if_false, Bool.false_eq_true]
        refine ⟨m, hm, ?_⟩
        by_cases hpos : 0 < m
        · rw [if_pos hpos, if_pos (hiff.mpr hpos)]
          exact ⟨_, rfl⟩
        · rw [if_neg hpos, if_neg (mt hiff.mp hpos)]

/-- All turns adapt the parameters right where the types of each agree. -/
lemma adaptParameters_iff (hfits : List.Forall₂ Fits parameters types) :
    (∃ qs, adaptParameters parameters types = some qs ∧ AreAdapted parameters types qs) ↔
      List.Forall₂ Agrees parameters types := by
  induction hfits with
  | nil => exact iff_of_true ⟨[], rfl, trivial⟩ .nil
  | cons hfit _ ih =>
    rw [List.forall₂_cons, ← ih, ← adaptParameter_iff hfit]
    constructor
    · rintro ⟨qs, hqs, hadapted⟩
      obtain ⟨q, hq, hmore⟩ := Option.bind_eq_some_iff.mp hqs
      obtain ⟨rest, hrest, hsome⟩ := Option.bind_eq_some_iff.mp hmore
      cases hsome
      exact ⟨⟨q, hq, hadapted.1⟩, rest, hrest, hadapted.2⟩
    · rintro ⟨⟨q, hq, hadapted⟩, rest, hrest, hadaptedRest⟩
      refine ⟨q :: rest, ?_, hadapted, hadaptedRest⟩
      rw [adaptParameters, hq, hrest]
      rfl

/-! ### The search -/

lemma accepts_length {entry : CallEntry} (h : Accepts entry parameters) :
    parameters.length = entry.parameters.length := h.length_eq

lemma first_of_accepts {entry e : CallEntry} {rest : List CallEntry} (h : Accepts entry parameters) :
    FirstAccepting (entry :: chain) parameters e rest ↔ e = entry ∧ rest = chain := by
  constructor
  · rintro ⟨before, hchain, hnone, -⟩
    cases before with
    | nil =>
      cases hchain
      exact ⟨rfl, rfl⟩
    | cons b before =>
      cases hchain
      exact absurd h (hnone _ List.mem_cons_self)
  · rintro ⟨rfl, rfl⟩
    exact ⟨[], rfl, List.forall_mem_nil _, h⟩

lemma first_of_not_accepts {entry e : CallEntry} {rest : List CallEntry} (h : ¬ Accepts entry parameters) :
    FirstAccepting (entry :: chain) parameters e rest ↔ FirstAccepting chain parameters e rest := by
  constructor
  · rintro ⟨before, hchain, hnone, haccepts⟩
    cases before with
    | nil =>
      cases hchain
      exact absurd haccepts h
    | cons b before =>
      cases hchain
      exact ⟨before, rfl, fun a ha => hnone a (List.mem_cons_of_mem _ ha), haccepts⟩
  · rintro ⟨before, rfl, hnone, haccepts⟩
    refine ⟨entry :: before, rfl, ?_, haccepts⟩
    rw [List.forall_mem_cons]
    exact ⟨h, hnone⟩

/-- An entry that does not accept decides nothing. -/
lemma finalizesRight_skip {entry : CallEntry} (h : ¬ Accepts entry call.m_parameters)
    (result : Call × Option YType) :
    FinalizesRight call (entry :: chain) result ↔ FinalizesRight call chain result := by
  constructor
  · rintro ⟨hselects, hrejects⟩
    refine ⟨fun e rest hfirst => hselects e rest ((first_of_not_accepts h).mpr hfirst), fun hnone => hrejects ?_⟩
    rw [List.forall_mem_cons]
    exact ⟨h, hnone⟩
  · rintro ⟨hselects, hrejects⟩
    refine ⟨fun e rest hfirst => hselects e rest ((first_of_not_accepts h).mp hfirst), fun hnone => hrejects ?_⟩
    rw [List.forall_mem_cons] at hnone
    exact hnone.2

lemma agreesAtFirst_skip {entry : CallEntry} (h : ¬ Accepts entry parameters) :
    AgreesAtFirst (entry :: chain) parameters ↔ AgreesAtFirst chain parameters := by
  refine forall₂_congr fun e rest => ?_
  rw [first_of_not_accepts h]

lemma agreesAtFirst_here {entry : CallEntry} (h : Accepts entry parameters) :
    AgreesAtFirst (entry :: chain) parameters ↔ List.Forall₂ Agrees parameters entry.parameters := by
  constructor
  · intro hagrees
    exact hagrees entry chain ((first_of_accepts h).mpr ⟨rfl, rfl⟩)
  · intro hagrees e rest hfirst
    obtain ⟨rfl, rfl⟩ := (first_of_accepts h).mp hfirst
    exact hagrees

/-- The entry at the head takes the parameters: what is left is to adapt them. -/
lemma finalizeFrom_here {entry : CallEntry} (h : Accepts entry call.m_parameters) :
    (∃ result, ((adaptParameters call.m_parameters entry.parameters).bind fun adapted =>
        some (({ call with
          m_entry := entry :: chain
          m_sentry := some entry.sentry
          m_parameters := adapted }, none) : Call × Option YType)) = some result ∧
        FinalizesRight call (entry :: chain) result) ↔
      List.Forall₂ Agrees call.m_parameters entry.parameters := by
  rw [← adaptParameters_iff h]
  constructor
  · rintro ⟨result, hresult, hright⟩
    obtain ⟨qs, hqs, hsome⟩ := Option.bind_eq_some_iff.mp hresult
    cases hsome
    obtain ⟨adapted, hadapted, heq⟩ := hright.selects entry chain ((first_of_accepts h).mpr ⟨rfl, rfl⟩)
    have hsame : qs = adapted := congrArg (fun r : Call × Option YType => r.1.m_parameters) heq
    subst hsame
    exact ⟨qs, hqs, hadapted⟩
  · rintro ⟨qs, hqs, hadapted⟩
    refine ⟨_, by rw [hqs, Option.bind_some], ?_, ?_⟩
    · intro e rest hfirst
      obtain ⟨rfl, rfl⟩ := (first_of_accepts h).mp hfirst
      exact ⟨qs, hadapted, rfl⟩
    · intro hnone
      exact absurd h (hnone entry List.mem_cons_self)

/-- Along a chain the search is right where it can compare the types and the two types of each parameter agree. -/
theorem finalizeFrom_iff (call : Call) (chain : List CallEntry) :
    (∃ result, call.finalizeFrom chain = some result ∧ FinalizesRight call chain result) ↔
      ComparedChain call.m_parameters chain ∧ AgreesAtFirst chain call.m_parameters := by
  induction chain with
  | nil =>
    refine iff_of_true ⟨_, rfl, ?_, fun _ => rfl⟩ ⟨trivial, ?_⟩
    · rintro entry rest ⟨before, hchain, -⟩
      exact absurd hchain.symm (by simp)
    · rintro entry rest ⟨before, hchain, -⟩
      exact absurd hchain.symm (by simp)
  | cons entry chain ih =>
    rw [Call.finalizeFrom, ComparedChain]
    by_cases hlen : call.m_parameters.length = entry.parameters.length
    · rw [if_neg (not_not.mpr hlen)]
      by_cases hcompared : Compared call.m_parameters entry.parameters
      · obtain ⟨accept, haccept, hfits⟩ := checkParameters_eq hlen hcompared
        rw [haccept, Option.bind_eq_bind, Option.bind_some]
        cases accept with
        | true =>
          have haccepts : Accepts entry call.m_parameters := hfits.mp rfl
          rw [if_pos rfl, Option.bind_eq_bind, finalizeFrom_here haccepts, agreesAtFirst_here haccepts]
          simp only [hcompared, haccepts, implies_true, not_true_eq_false, false_implies, true_and]
        | false =>
          have hnot : ¬ Accepts entry call.m_parameters := fun h => Bool.false_ne_true (hfits.mpr h)
          simp only [Bool.false_eq_true, if_false, finalizesRight_skip hnot, agreesAtFirst_skip hnot, ih]
          simp only [hcompared, hnot, implies_true, not_false_eq_true, true_implies, true_and]
      · rw [checkParameters_none hlen hcompared]
        refine iff_of_false ?_ fun hright => hcompared (hright.1.1 hlen)
        rintro ⟨result, hresult, -⟩
        cases hresult
    · have hnot : ¬ Accepts entry call.m_parameters := fun h => hlen (accepts_length h)
      rw [if_pos hlen]
      simp only [finalizesRight_skip hnot, agreesAtFirst_skip hnot, ih]
      simp only [hlen, hnot, false_implies, not_false_eq_true, true_implies, true_and]

end

/-- Attaching and finalizing do what they promise if and only if the types that the search compares can be
compared, and, for the entry that is taken, the type that came with a parameter and the type of its code agree on
whether they match by propagation. -/
theorem resolution_iff (chain : List CallEntry) (requests : List AttachRequest) :
    (AttachesRight chain requests ∧
      ∃ result, ((YECall chain).attachAll requests).finalize = some result ∧
        FinalizesRight ((YECall chain).attachAll requests) chain result) ↔
      ComparedChain (attached chain requests) chain ∧ AgreesAtFirst chain (attached chain requests) := by
  have hentry : ((YECall chain).attachAll requests).m_entry = chain :=
    (attachAll_spec (roomy_new chain) requests).1.entry
  rw [and_iff_right (attachesRight chain requests), Call.finalize, hentry, finalizeFrom_iff, attached_eq]

/-- A `nil` that is cast to an integer comes with the type integer and keeps its own code of type void. -/
def castNil : AttachRequest := ⟨some (.other 0 voidType), base .integerT unqualified⟩

/-- A function of a float. -/
def floatEntry : CallEntry := ⟨⟨.block 0, 0⟩, [base .floatT unqualified]⟩

/-- A function of a float is called with that integer, and no propagation is put around its code. -/
theorem resolution_castNil :
    ¬ (AttachesRight [floatEntry] [castNil] ∧
      ∃ result, ((YECall [floatEntry]).attachAll [castNil]).finalize = some result ∧
        FinalizesRight ((YECall [floatEntry]).attachAll [castNil]) [floatEntry] result) := by
  rintro ⟨-, hright⟩
  obtain ⟨-, hagrees⟩ := (finalizeFrom_iff ((YECall [floatEntry]).attachAll [castNil]) [floatEntry]).mp hright
  have hfits : Fits ⟨.other 0 voidType, base .integerT unqualified⟩ (base .floatT unqualified) := by
    refine ⟨2, rfl, by decide, ?_⟩
    intro hreference
    cases hreference
  have haccepts : Accepts floatEntry ((YECall [floatEntry]).attachAll [castNil]).m_parameters := .cons hfits .nil
  have hall : List.Forall₂ Agrees _ floatEntry.parameters := (agreesAtFirst_here haccepts).mp hagrees
  obtain ⟨⟨m, m', hm, hm', hiff⟩, -⟩ := List.forall₂_cons.mp hall
  cases hm
  cases hm'
  exact absurd (hiff.mpr (by decide)) (by decide)

end YastCore.Interp.CallResolution
