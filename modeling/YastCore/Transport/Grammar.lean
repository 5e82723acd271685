import YastCore.Transport.Comments
import YastCore.Transport.Denotes

/-!
# The grammar of values

The rules of the parser as relations between places of a text: what has to be scanned between two
places so that an expression for a value is read there, whatever stands around the tokens.
-/

namespace YastCore.Transport

open Interp Lines

/-! ### Expressions -/

/-- No expression begins with these. -/
lemma expression_ne_char {fuel : Nat} {heap : Heap} {text rest : Text} {p : Parsed} {c : UInt8}
    (h : expression fuel heap text = some p) (hc : c = 93 ∨ c = 58 ∨ c = 41) :
    scan text ≠ some (.char c, rest) := by
  intro hscan
  cases fuel with
  | zero => cases h
  | succ fuel =>
    rw [expression, hscan] at h
    rcases hc with rfl | rfl | rfl <;> cases h

/-- What the rules leave behind for a value. -/
structure Result (heap : Heap) (v : YCPValue) (rest : Text) (p : Parsed) : Prop where
  grows : heap <+: p.heap
  denotes : Denotes p.heap p.c v
  rest_eq : p.rest = rest
  data : p.t.isData = true
  key : v.isMapKey = true → isKeyType p.t = true

lemma result_constant (heap : Heap) (v : YCPValue) (rest : Text) :
    Result heap v rest (constant heap v rest) where
  grows := List.prefix_append _ _
  denotes := denotes_constant _ _ _
  rest_eq := rfl
  data := by cases v <;> rfl
  key := by
    intro h
    cases v <;> first | rfl | cases h

lemma expression_of_scan {heap : Heap} {text rest : Text} {token : Token} {p : Parsed} {n : Nat}
    (hscan : scan text = some (token, rest)) (hminus : token ≠ .char 45)
    (h : ∀ fuel, n ≤ fuel → compactExpression (expression fuel) fuel heap token rest = some p) (fuel : Nat)
    (hfuel : n + 1 ≤ fuel) : expression fuel heap text = some p := by
  obtain ⟨fuel, rfl⟩ : ∃ m, fuel = m + 1 := ⟨fuel - 1, by omega⟩
  rw [expression, hscan]
  split
  next rest' heq => exact absurd (Prod.mk.inj (Option.some.inj heq)).1 hminus
  next token' rest' hne heq =>
    cases heq
    exact h fuel (by omega)
  next heq => cases heq

/-- What is left of a minus sign before an integer constant. -/
def negated (heap : Heap) (j : Int64) (rest : Text) : Parsed :=
  let heap := heap ++ [Node.yConst .ycInteger (.integer j)]
  ⟨heap.length + 1, .base .integerT unqualified, heap ++ [Node.yConst .ycInteger (.integer (-j))], rest⟩

lemma negate_constant {heap : Heap} {text rest : Text} {j : Int64} {fuel : Nat}
    (h : expression fuel heap text = some (constant heap (.integer j) rest)) :
    negate (expression fuel) heap text = some (negated heap j rest) := by
  have hcode := code_alloc heap (.yConst .ycInteger (.integer j)) []
  rw [List.append_nil] at hcode
  rw [negate, h, Option.bind_eq_bind, Option.bind_some]
  dsimp only [constant, Heap.alloc, constKind]
  rw [hcode]
  rfl

lemma result_negated (heap : Heap) (j : Int64) (rest : Text) :
    Result heap (.integer (-j)) rest (negated heap j rest) where
  grows := (List.prefix_append _ _).trans (List.prefix_append _ _)
  denotes := denotes_constant _ _ _
  rest_eq := rfl
  data := rfl
  key := fun _ => rfl

/-- From one place of a text to another an expression is read, and it is code for a value. -/
structure Reads (text : Text) (v : YCPValue) (rest : Text) : Prop where
  notNull : v.isNull = false
  tokens : Tokens text rest
  code : ∀ heap, ∃ n p, (∀ fuel, n ≤ fuel → expression fuel heap text = some p) ∧ Result heap v rest p

lemma Reads.ne_char {text rest rest' : Text} {v : YCPValue} {c : UInt8} (h : Reads text v rest)
    (hc : c = 93 ∨ c = 58 ∨ c = 41) : scan text ≠ some (.char c, rest') := by
  obtain ⟨n, p, hexpr, -⟩ := h.code []
  exact expression_ne_char (hexpr n (Nat.le_refl n)) hc

lemma expression_congr {text text' : Text} (h : scan text = scan text') (fuel : Nat) (heap : Heap) :
    expression fuel heap text = expression fuel heap text' := by
  cases fuel with
  | zero => rfl
  | succ fuel => rw [expression, expression, h]

/-- Only the tokens of a text matter. -/
lemma Reads.congr {text text' rest : Text} {v : YCPValue} (h : Reads text' v rest)
    (hscan : scan text = scan text') : Reads text v rest where
  notNull := h.notNull
  tokens := by
    cases h.tokens with
    | one hfirst => exact .one (hscan.trans hfirst)
    | step hfirst hmore => exact .step (hscan.trans hfirst) hmore
  code := by
    intro heap
    obtain ⟨n, p, hexpr, hresult⟩ := h.code heap
    refine ⟨n, p, fun fuel hfuel => ?_, hresult⟩
    rw [expression_congr hscan]
    exact hexpr fuel hfuel

lemma reads_constant {text rest : Text} {v : YCPValue} (hscan : scan text = some (.constant v, rest))
    (hnull : v.isNull = false) : Reads text v rest where
  notNull := hnull
  tokens := .one hscan
  code := fun heap => ⟨1, constant heap v rest,
    expression_of_scan hscan Token.noConfusion fun _ _ => rfl, result_constant heap v rest⟩

lemma reads_negated {text text' rest : Text} {j : Int64} (hminus : scan text = some (.char 45, text'))
    (hscan : scan text' = some (.constant (.integer j), rest)) : Reads text (.integer (-j)) rest where
  notNull := rfl
  tokens := .step hminus (.one hscan)
  code := by
    intro heap
    have hinner : ∀ fuel, 1 ≤ fuel → expression fuel heap text' =
        some (constant heap (.integer j) rest) :=
      expression_of_scan hscan Token.noConfusion fun _ _ => rfl
    refine ⟨2, negated heap j rest, fun fuel hfuel => ?_, result_negated heap j rest⟩
    obtain ⟨fuel, rfl⟩ : ∃ m, fuel = m + 1 := ⟨fuel - 1, by omega⟩
    rw [expression, hminus]
    exact negate_constant (hinner fuel (by omega))

lemma reads_symbol {text rest : Text} {name : Text} (hscan : scan text = some (.symbol name, rest))
    (hplain : ∀ r, scan rest ≠ some (.char 40, r)) : Reads text (.symbol name) rest where
  notNull := rfl
  tokens := .one hscan
  code := by
    intro heap
    refine ⟨1, constant heap (.symbol name) rest, ?_, result_constant heap _ _⟩
    refine expression_of_scan hscan Token.noConfusion fun fuel _ => ?_
    rw [compactExpression]
    split
    next r heq => exact absurd heq (hplain r)
    next => rfl

/-! ### Lists -/

lemma nextElement_close {text rest : Text} (hclose : scan text = some (.char 93, rest)) :
    nextElement text = some (true, rest) := by
  rw [nextElement, hclose]
  rfl

lemma nextElement_trailing {text t rest : Text} (hcomma : scan text = some (.char 44, t))
    (hclose : scan t = some (.char 93, rest)) : nextElement text = some (true, rest) := by
  rw [nextElement, hcomma]
  simp only [hclose]

lemma nextElement_comma {text t : Text} (hcomma : scan text = some (.char 44, t))
    (hopen : ∀ rest, scan t ≠ some (.char 93, rest)) : nextElement text = some (false, t) := by
  -- the bracket behind the comma is ruled out by `hopen`
  simp only [nextElement, hcomma]

/-- After an element: the end of the list, perhaps behind a comma, or the next element. -/
inductive ListRest : Text → List YCPValue → Text → Prop where
  | close {text rest : Text} (hclose : scan text = some (.char 93, rest)) : ListRest text [] rest
  | trailing {text t rest : Text} (hcomma : scan text = some (.char 44, t))
      (hclose : scan t = some (.char 93, rest)) : ListRest text [] rest
  | next {text t t' rest : Text} {v : YCPValue} {l : List YCPValue}
      (hcomma : scan text = some (.char 44, t)) (hv : Reads t v t') (hl : ListRest t' l rest) :
      ListRest text (v :: l) rest

/-- After the opening bracket or a comma. -/
def ListText (text : Text) (l : List YCPValue) (rest : Text) : Prop :=
  match l with
  | [] => scan text = some (.char 93, rest)
  | v :: l => ∃ t, Reads text v t ∧ ListRest t l rest

lemma ListRest.comma {text t rest : Text} {l : List YCPValue} (hcomma : scan text = some (.char 44, t))
    (hl : ListText t l rest) : ListRest text l rest := by
  cases l with
  | nil => exact .trailing hcomma hl
  | cons v l =>
    obtain ⟨t', hv, hl⟩ := hl
    exact .next hcomma hv hl

lemma ListRest.tokens {text rest : Text} {l : List YCPValue} (h : ListRest text l rest) :
    Tokens text rest := by
  induction h with
  | close hclose => exact .one hclose
  | trailing hcomma hclose => exact .step hcomma (.one hclose)
  | next hcomma hv _ ih => exact .step hcomma (hv.tokens.trans ih)

/-- The loop over the elements of a list after the first one. -/
lemma ListRest.elements {text rest : Text} {l : List YCPValue} (h : ListRest text l rest)
    (elements : List CodePtr) (p : Parsed) (htext : p.rest = text) (hdata : p.t.isData = true) :
    ∃ n ps q, (∀ fuel, n ≤ fuel → ∀ k, l.length < k →
        listElements (expression fuel) k elements p = some (elements ++ ps, q)) ∧
      p.heap <+: q.heap ∧ DenotesAll q.heap ps l ∧ q.rest = rest ∧ q.t.isData = true := by
  induction h generalizing elements p with
  | @close text rest hclose =>
    refine ⟨0, [], { p with rest := rest }, fun fuel _ k hk => ?_, List.prefix_rfl, .nil, rfl, hdata⟩
    obtain ⟨k, rfl⟩ : ∃ m, k = m + 1 := ⟨k - 1, by omega⟩
    rw [listElements, htext, nextElement_close hclose, List.append_nil]
  | @trailing text t rest hcomma hclose =>
    refine ⟨0, [], { p with rest := rest }, fun fuel _ k hk => ?_, List.prefix_rfl, .nil, rfl, hdata⟩
    obtain ⟨k, rfl⟩ : ∃ m, k = m + 1 := ⟨k - 1, by omega⟩
    rw [listElements, htext, nextElement_trailing hcomma hclose, List.append_nil]
  | @next text t t' rest v l hcomma hv _ ih =>
    obtain ⟨n, e, he, hresult⟩ := hv.code p.heap
    obtain ⟨ty, hty, htydata⟩ := YType.commontype_data hdata hresult.data
    obtain ⟨m, ps, q, hloop, hgrows, hps, hq, hqdata⟩ :=
      ih (elements ++ [e.c]) { e with t := ty } hresult.rest_eq htydata
    refine ⟨max n m, e.c :: ps, q, fun fuel hfuel k hk => ?_, hresult.grows.trans hgrows,
      .cons ⟨hresult.denotes.mono hgrows, hv.notNull⟩ hps, hq, hqdata⟩
    obtain ⟨k, rfl⟩ : ∃ j, k = j + 1 := ⟨k - 1, by omega⟩
    rw [List.length_cons] at hk
    rw [listElements, htext, nextElement_comma hcomma fun r => hv.ne_char (.inl rfl)]
    dsimp only
    rw [he fuel (le_of_max_le_left hfuel), Option.bind_eq_bind, Option.bind_some, hty,
      Option.bind_eq_bind, Option.bind_some, hloop fuel (le_of_max_le_right hfuel) k (by omega),
      List.append_assoc, List.singleton_append]

lemma reads_list {text t rest : Text} {l : List YCPValue} (hopen : scan text = some (.char 91, t))
    (h : ListText t l rest) : Reads text (.list l) rest := by
  have hminus : Token.char 91 ≠ .char 45 := by simp
  cases l with
  | nil =>
    have hclose : scan t = some (.char 93, rest) := h
    refine ⟨rfl, .step hopen (.one hclose), fun heap => ?_⟩
    refine ⟨1, ⟨heap.length + 1, .listT (.base .unspecT unqualified) unqualified,
      heap ++ [Node.yConst .ycList (.list [])], rest⟩, ?_, ?_⟩
    · refine expression_of_scan hopen hminus fun fuel _ => ?_
      show list (expression fuel) fuel heap _ = _
      rw [list, hclose]
      rfl
    · exact ⟨List.prefix_append _ _, denotes_constant _ _ _, rfl, rfl, fun h => by cases h⟩
  | cons v l =>
    obtain ⟨t', hv, hl⟩ := h
    refine ⟨rfl, .step hopen (hv.tokens.trans hl.tokens), fun heap => ?_⟩
    obtain ⟨n, e, he, hresult⟩ := hv.code heap
    obtain ⟨m, ps, q, hloop, hgrows, hps, hq, hqdata⟩ :=
      hl.elements [e.c] e hresult.rest_eq hresult.data
    have hall : DenotesAll q.heap (e.c :: ps) (v :: l) :=
      .cons ⟨hresult.denotes.mono hgrows, hv.notNull⟩ hps
    have hlist := (denotes_list hall).evaluate
    let heap' := q.heap ++ [Node.yeList (e.c :: ps)]
    refine ⟨max (max n m) (l.length + 1) + 1, ⟨heap'.length + 1, .listT q.t unqualified,
      heap' ++ [Node.yConst .ycList (.list (v :: l))], q.rest⟩, ?_, ?_⟩
    · refine expression_of_scan hopen hminus fun fuel hfuel => ?_
      have hexpr := he fuel (by omega)
      show list (expression fuel) fuel heap _ = _
      rw [list]
      split
      next rest heq => exact absurd heq (hv.ne_char (.inl rfl))
      next =>
        rw [hexpr, Option.bind_eq_bind, Option.bind_some, hloop fuel (by omega) fuel (by omega),
          Option.bind_eq_bind, Option.bind_some]
        dsimp only [Heap.alloc, List.singleton_append]
        rw [hlist]
        rfl
    · exact {
        grows := (hresult.grows.trans hgrows).trans
          ((List.prefix_append _ _).trans (List.prefix_append _ _))
        denotes := denotes_constant _ _ _
        rest_eq := hq
        data := hqdata
        key := fun h => by cases h }

/-! ### Terms -/

/-- After an argument. -/
inductive ParametersRest : Text → List YCPValue → Text → Prop where
  | close {text rest : Text} (hclose : scan text = some (.char 41, rest)) : ParametersRest text [] rest
  | next {text t t' rest : Text} {v : YCPValue} {l : List YCPValue}
      (hcomma : scan text = some (.char 44, t)) (hv : Reads t v t') (hl : ParametersRest t' l rest) :
      ParametersRest text (v :: l) rest

/-- After the opening parenthesis. -/
def ParametersText (text : Text) (l : List YCPValue) (rest : Text) : Prop :=
  match l with
  | [] => scan text = some (.char 41, rest)
  | v :: l => ∃ t, Reads text v t ∧ ParametersRest t l rest

lemma ParametersRest.tokens {text rest : Text} {l : List YCPValue} (h : ParametersRest text l rest) :
    Tokens text rest := by
  induction h with
  | close hclose => exact .one hclose
  | next hcomma hv _ ih => exact .step hcomma (hv.tokens.trans ih)

/-- The loop over the parameters of a term after the first one. -/
lemma ParametersRest.parameters {text rest : Text} {l : List YCPValue}
    (h : ParametersRest text l rest) (args : List CodePtr) (heap : Heap) :
    ∃ n ps heap', (∀ fuel, n ≤ fuel → ∀ k, l.length < k →
        Transport.parameters (expression fuel) k args heap text = some (args ++ ps, heap', rest)) ∧
      heap <+: heap' ∧ DenotesAll heap' ps l := by
  induction h generalizing args heap with
  | @close text rest hclose =>
    refine ⟨0, [], heap, fun fuel _ k hk => ?_, List.prefix_rfl, .nil⟩
    obtain ⟨k, rfl⟩ : ∃ m, k = m + 1 := ⟨k - 1, by omega⟩
    rw [Transport.parameters, hclose, List.append_nil]
    rfl
  | @next text t t' rest v l hcomma hv _ ih =>
    obtain ⟨n, e, he, hresult⟩ := hv.code heap
    obtain ⟨m, ps, heap', hloop, hgrows, hps⟩ := ih (args ++ [e.c]) e.heap
    refine ⟨max n m, e.c :: ps, heap', fun fuel hfuel k hk => ?_, hresult.grows.trans hgrows,
      .cons ⟨hresult.denotes.mono hgrows, hv.notNull⟩ hps⟩
    obtain ⟨k, rfl⟩ : ∃ j, k = j + 1 := ⟨k - 1, by omega⟩
    rw [List.length_cons] at hk
    rw [Transport.parameters, hcomma]
    show ((expression fuel heap _).bind fun e =>
      Transport.parameters (expression fuel) k (args ++ [e.c]) e.heap e.rest) = _
    rw [he fuel (le_of_max_le_left hfuel), Option.bind_some, hresult.rest_eq,
      hloop fuel (le_of_max_le_right hfuel) k (by omega), List.append_assoc, List.singleton_append]

/-- All the arguments of a term. -/
lemma term_spec {text rest : Text} {l : List YCPValue} (h : ParametersText text l rest) (name : Text)
    (heap : Heap) :
    ∃ n ps heap', (∀ fuel, n ≤ fuel → term (expression fuel) fuel name heap text =
        some ⟨heap'.length + 1, .base .termT unqualified, heap' ++ [Node.yeTerm (.ofBuffer name) ps], rest⟩) ∧
      heap <+: heap' ∧ DenotesAll heap' ps l := by
  cases l with
  | nil =>
    have hclose : scan text = some (.char 41, rest) := h
    refine ⟨0, [], heap, fun fuel _ => ?_, List.prefix_rfl, .nil⟩
    rw [term, hclose]
    rfl
  | cons v l =>
    obtain ⟨t, hv, hl⟩ := h
    obtain ⟨n, e, he, hresult⟩ := hv.code heap
    obtain ⟨m, ps, heap', hloop, hgrows, hps⟩ := hl.parameters [e.c] e.heap
    refine ⟨max (max n m) (l.length + 1), e.c :: ps, heap', fun fuel hfuel => ?_,
      hresult.grows.trans hgrows, .cons ⟨hresult.denotes.mono hgrows, hv.notNull⟩ hps⟩
    have hexpr := he fuel (by omega)
    rw [term]
    split
    next r heq => exact absurd heq (hv.ne_char (.inr (.inr rfl)))
    next =>
      rw [hexpr, Option.bind_eq_bind, Option.bind_eq_bind, Option.bind_some, hresult.rest_eq,
        hloop fuel (by omega) fuel (by omega)]
      rfl

lemma reads_term {text t t' rest : Text} {name : Text} {l : List YCPValue} (hnul : 0 ∉ name)
    (hname : scan text = some (.symbol name, t)) (hopen : scan t = some (.char 40, t'))
    (h : ParametersText t' l rest) : Reads text (.term name l) rest := by
  have hcut : (CText.ofBuffer name).text = name := cut_eq_self.mpr hnul
  have htokens : Tokens t' rest := by
    cases l with
    | nil => exact .one h
    | cons v l =>
      obtain ⟨t'', hv, hl⟩ := h
      exact hv.tokens.trans hl.tokens
  refine ⟨rfl, .step hname (.step hopen htokens), fun heap => ?_⟩
  obtain ⟨n, ps, heap', hterm, hgrows, hps⟩ := term_spec h name heap
  refine ⟨n + 1, ⟨heap'.length + 1, .base .termT unqualified, heap' ++ [Node.yeTerm (.ofBuffer name) ps],
    rest⟩, ?_, ?_⟩
  · refine expression_of_scan hname Token.noConfusion fun fuel hfuel => ?_
    rw [compactExpression, hopen]
    exact hterm fuel hfuel
  · have hdenotes := denotes_term (.ofBuffer name) hps
    rw [hcut] at hdenotes
    exact {
      grows := hgrows.trans (List.prefix_append _ _)
      denotes := hdenotes
      rest_eq := rfl
      data := rfl
      key := fun h => by cases h }

/-! ### Maps -/

/-- The key, the colon and the value of an entry. -/
structure ReadsEntry (text : Text) (e : YCPValue × YCPValue) (rest : Text) : Prop where
  isMapKey : e.1.isMapKey = true
  parts : ∃ t t', Reads text e.1 t ∧ scan t = some (.char 58, t') ∧ Reads t' e.2 rest

lemma ReadsEntry.tokens {text rest : Text} {e : YCPValue × YCPValue} (h : ReadsEntry text e rest) :
    Tokens text rest := by
  obtain ⟨t, t', hkey, hcolon, hvalue⟩ := h.parts
  exact hkey.tokens.trans (.step hcolon hvalue.tokens)

lemma ReadsEntry.congr {text text' rest : Text} {e : YCPValue × YCPValue}
    (h : ReadsEntry text' e rest) (hscan : scan text = scan text') : ReadsEntry text e rest where
  isMapKey := h.isMapKey
  parts := by
    obtain ⟨t, t', hkey, hcolon, hvalue⟩ := h.parts
    exact ⟨t, t', hkey.congr hscan, hcolon, hvalue⟩

lemma ReadsEntry.ne_bracket {text rest rest' : Text} {e : YCPValue × YCPValue}
    (h : ReadsEntry text e rest) : scan text ≠ some (.char 93, rest') := by
  obtain ⟨t, t', hkey, -, -⟩ := h.parts
  exact hkey.ne_char (.inl rfl)

/-- What is left behind for an entry: the key and the value. -/
structure EntryResult (heap : Heap) (e : YCPValue × YCPValue) (rest : Text) (key value : Parsed) :
    Prop where
  grows : heap <+: value.heap
  denotesKey : Denotes value.heap key.c e.1
  denotes : Denotes value.heap value.c e.2
  notNull : e.2.isNull = false
  rest_eq : value.rest = rest
  keyData : key.t.isData = true
  data : value.t.isData = true

lemma ReadsEntry.mapElement {text rest : Text} {e : YCPValue × YCPValue} (h : ReadsEntry text e rest)
    (heap : Heap) :
    ∃ n key value, (∀ fuel, n ≤ fuel →
        Transport.mapElement (expression fuel) heap text = some (key, value)) ∧
      EntryResult heap e rest key value := by
  obtain ⟨t, t', hkey, hcolon, hvalue⟩ := h.parts
  obtain ⟨n, key, hkexpr, hkresult⟩ := hkey.code heap
  obtain ⟨m, value, hvexpr, hvresult⟩ := hvalue.code key.heap
  refine ⟨max n m, key, value, fun fuel hfuel => ?_, ?_⟩
  · rw [Transport.mapElement, hkexpr fuel (by omega), Option.bind_eq_bind, Option.bind_some,
      hkresult.rest_eq, hcolon]
    show ((expression fuel key.heap _).bind fun value =>
      if isKeyType key.t = true then some (key, value) else none) = _
    rw [hvexpr fuel (by omega), Option.bind_some, if_pos (hkresult.key h.isMapKey)]
  · exact {
      grows := hkresult.grows.trans hvresult.grows
      denotesKey := hkresult.denotes.mono hvresult.grows
      denotes := hvresult.denotes
      notNull := hvalue.notNull
      rest_eq := hvresult.rest_eq
      keyData := hkresult.data
      data := hvresult.data }

/-- After an entry: the end of the map, perhaps behind a comma, or the next entry. -/
inductive EntriesRest : Text → List (YCPValue × YCPValue) → Text → Prop where
  | close {text rest : Text} (hclose : scan text = some (.char 93, rest)) : EntriesRest text [] rest
  | trailing {text t rest : Text} (hcomma : scan text = some (.char 44, t))
      (hclose : scan t = some (.char 93, rest)) : EntriesRest text [] rest
  | next {text t t' rest : Text} {e : YCPValue × YCPValue} {m : List (YCPValue × YCPValue)}
      (hcomma : scan text = some (.char 44, t)) (he : ReadsEntry t e t') (hm : EntriesRest t' m rest) :
      EntriesRest text (e :: m) rest

/-- After the opening bracket or a comma. -/
def EntriesText (text : Text) (m : List (YCPValue × YCPValue)) (rest : Text) : Prop :=
  match m with
  | [] => scan text = some (.char 93, rest)
  | e :: m => ∃ t, ReadsEntry text e t ∧ EntriesRest t m rest

lemma EntriesRest.comma {text t rest : Text} {m : List (YCPValue × YCPValue)}
    (hcomma : scan text = some (.char 44, t)) (hm : EntriesText t m rest) : EntriesRest text m rest := by
  cases m with
  | nil => exact .trailing hcomma hm
  | cons e m =>
    obtain ⟨t', he, hm⟩ := hm
    exact .next hcomma he hm

lemma EntriesRest.tokens {text rest : Text} {m : List (YCPValue × YCPValue)} (h : EntriesRest text m rest) :
    Tokens text rest := by
  induction h with
  | close hclose => exact .one hclose
  | trailing hcomma hclose => exact .step hcomma (.one hclose)
  | next hcomma he _ ih => exact .step hcomma (he.tokens.trans ih)

lemma EntriesRest.isMapKey {text rest : Text} {m : List (YCPValue × YCPValue)} (h : EntriesRest text m rest) :
    ∀ e ∈ m, e.1.isMapKey = true := by
  induction h with
  | close => simp
  | trailing => simp
  | next _ he _ ih => exact List.forall_mem_cons.mpr ⟨he.isMapKey, ih⟩

/-- The loop over the entries of a map after the first one. -/
lemma EntriesRest.elements {text rest : Text} {m : List (YCPValue × YCPValue)} (h : EntriesRest text m rest)
    (elements : List (CodePtr × CodePtr)) (keytype valuetype : YType) (heap : Heap)
    (hkeytype : keytype.isData = true) (hvaluetype : valuetype.isData = true) :
    ∃ n ps keytype' valuetype' heap', (∀ fuel, n ≤ fuel → ∀ k, m.length < k →
        mapElements (expression fuel) k elements keytype valuetype heap text =
          some (elements ++ ps, keytype', valuetype', heap', rest)) ∧
      heap <+: heap' ∧ DenotesEntries heap' ps m ∧ keytype'.isData = true ∧ valuetype'.isData = true := by
  induction h generalizing elements keytype valuetype heap with
  | @close text rest hclose =>
    refine ⟨0, [], keytype, valuetype, heap, fun fuel _ k hk => ?_, List.prefix_rfl, .nil, hkeytype,
      hvaluetype⟩
    obtain ⟨k, rfl⟩ : ∃ j, k = j + 1 := ⟨k - 1, by omega⟩
    rw [mapElements, nextElement_close hclose, List.append_nil]
  | @trailing text t rest hcomma hclose =>
    refine ⟨0, [], keytype, valuetype, heap, fun fuel _ k hk => ?_, List.prefix_rfl, .nil, hkeytype,
      hvaluetype⟩
    obtain ⟨k, rfl⟩ : ∃ j, k = j + 1 := ⟨k - 1, by omega⟩
    rw [mapElements, nextElement_trailing hcomma hclose, List.append_nil]
  | @next text t t' rest e m hcomma he _ ih =>
    obtain ⟨n, key, value, hexpr, hresult⟩ := he.mapElement heap
    obtain ⟨kt, hkt, hktdata⟩ := YType.commontype_data hkeytype hresult.keyData
    obtain ⟨vt, hvt, hvtdata⟩ := YType.commontype_data hvaluetype hresult.data
    obtain ⟨j, ps, keytype', valuetype', heap', hloop, hgrows, hps, hdata, hdata'⟩ :=
      ih (elements ++ [(key.c, value.c)]) kt vt value.heap hktdata hvtdata
    refine ⟨max n j, (key.c, value.c) :: ps, keytype', valuetype', heap', fun fuel hfuel k hk => ?_,
      hresult.grows.trans hgrows,
      .cons ⟨⟨hresult.denotesKey.mono hgrows, hresult.denotes.mono hgrows⟩, hresult.notNull⟩ hps, hdata,
      hdata'⟩
    obtain ⟨k, rfl⟩ : ∃ i, k = i + 1 := ⟨k - 1, by omega⟩
    rw [List.length_cons] at hk
    rw [mapElements, nextElement_comma hcomma fun r => he.ne_bracket]
    dsimp only
    rw [hexpr fuel (by omega), Option.bind_eq_bind, Option.bind_some]
    dsimp only
    rw [hkt, hvt, Option.bind_eq_bind, Option.bind_some, Option.bind_some, hresult.rest_eq,
      hloop fuel (by omega) k (by omega), List.append_assoc, List.singleton_append]

/-- The entries make up the map in the order in which they are read. -/
lemma reads_entries {text t rest : Text} {m : List (YCPValue × YCPValue)}
    (hopen : scan text = some (.mapExpr, t)) (h : EntriesText t m rest) :
    Reads text (.map (YCPValue.rebuild m)) rest := by
  cases m with
  | nil =>
    have hclose : scan t = some (.char 93, rest) := h
    refine ⟨rfl, .step hopen (.one hclose), fun heap => ?_⟩
    refine ⟨1, ⟨heap.length + 1, .mapT (.base .unspecT unqualified) (.base .unspecT unqualified)
      unqualified, heap ++ [Node.yConst .ycMap (.map [])], rest⟩, ?_, ?_⟩
    · refine expression_of_scan hopen Token.noConfusion fun fuel _ => ?_
      show map (expression fuel) fuel heap _ = _
      rw [map, hclose]
      rfl
    · exact ⟨List.prefix_append _ _, denotes_constant _ _ _, rfl, rfl, fun h => by cases h⟩
  | cons e m =>
    obtain ⟨t', he, hm⟩ := h
    have hkeys : ∀ e' ∈ e :: m, e'.1.isMapKey = true :=
      List.forall_mem_cons.mpr ⟨he.isMapKey, hm.isMapKey⟩
    refine ⟨rfl, .step hopen (he.tokens.trans hm.tokens), fun heap => ?_⟩
    obtain ⟨n, key, value, hexpr, hresult⟩ := he.mapElement heap
    obtain ⟨j, ps, keytype, valuetype, heap₁, hloop, hgrows, hps, hdata, hdata'⟩ :=
      hm.elements [(key.c, value.c)] key.t value.t value.heap hresult.keyData hresult.data
    have hall : DenotesEntries heap₁ ((key.c, value.c) :: ps) (e :: m) :=
      .cons ⟨⟨hresult.denotesKey.mono hgrows, hresult.denotes.mono hgrows⟩, hresult.notNull⟩ hps
    have hmap := (denotes_map hkeys hall).evaluate
    let heap' := heap₁ ++ [.yeMap ((key.c, value.c) :: ps)]
    refine ⟨max (max n j) (m.length + 1) + 1, ⟨heap'.length + 1, .mapT keytype valuetype unqualified,
      heap' ++ [Node.yConst .ycMap (.map (YCPValue.rebuild (e :: m)))], rest⟩, ?_, ?_⟩
    · refine expression_of_scan hopen Token.noConfusion fun fuel hfuel => ?_
      show map (expression fuel) fuel heap _ = _
      rw [map]
      split
      next rest heq => exact absurd heq he.ne_bracket
      next =>
        rw [hexpr fuel (by omega), Option.bind_eq_bind, Option.bind_some]
        dsimp only
        rw [hresult.rest_eq, hloop fuel (by omega) fuel (by omega), Option.bind_eq_bind, Option.bind_some]
        dsimp only [Heap.alloc, List.singleton_append]
        rw [hmap]
        rfl
    · exact {
        grows := (hresult.grows.trans hgrows).trans
          ((List.prefix_append _ _).trans (List.prefix_append _ _))
        denotes := denotes_constant _ _ _
        rest_eq := rfl
        data := by rw [YType.isData, hdata, hdata']; rfl
        key := fun h => by cases h }

/-! ### Maps without a comma at the end -/

/-- After an entry: the end of the map or the next entry. -/
inductive MapRest : Text → List (YCPValue × YCPValue) → Text → Prop where
  | close {text rest : Text} (hclose : scan text = some (.char 93, rest)) : MapRest text [] rest
  | next {text t t' rest : Text} {e : YCPValue × YCPValue} {m : List (YCPValue × YCPValue)}
      (hcomma : scan text = some (.char 44, t)) (he : ReadsEntry t e t') (hm : MapRest t' m rest) :
      MapRest text (e :: m) rest

/-- After the opening bracket. -/
def MapText (text : Text) (m : List (YCPValue × YCPValue)) (rest : Text) : Prop :=
  match m with
  | [] => scan text = some (.char 93, rest)
  | e :: m => ∃ t, ReadsEntry text e t ∧ MapRest t m rest

lemma MapRest.entries {text rest : Text} {m : List (YCPValue × YCPValue)} (h : MapRest text m rest) :
    EntriesRest text m rest := by
  induction h with
  | close hclose => exact .close hclose
  | next hcomma he _ ih => exact .next hcomma he ih

lemma reads_map {text t rest : Text} {m : List (YCPValue × YCPValue)}
    (hopen : scan text = some (.mapExpr, t)) (h : MapText t m rest) :
    Reads text (.map (YCPValue.rebuild m)) rest := by
  refine reads_entries hopen ?_
  cases m with
  | nil => exact h
  | cons e m =>
    obtain ⟨t', he, hm⟩ := h
    exact ⟨t', he, hm.entries⟩

end YastCore.Transport
