import YastCore.AnyAgent.Forward

/-!
# Termination of parsing

The loops of `parseList` and of `parseTuple` end when a part fails, and nothing else ends them. They end where a
part of each turn takes text whenever it succeeds.
-/

namespace YastCore.AnyAgent

open Bounded Lines Transport YCPValue

/-- `parseData` returns, or stops in something undefined. -/
def Terminates (d : Description) (alldata : List Text) (line : Option Cursor) (syn : YCPValue) (optional : Bool)
    (s : ParserState) : Prop :=
  Ends fun n => d.parseData alldata n line syn optional s

def Construct.isTuple : Construct → Bool
  | .tuple _ => true
  | _ => false

/-- The parts of a syntax at any depth, and whether each stands in a `Tuple`. -/
inductive Below (d : Description) : Bool → YCPValue → Bool → YCPValue → Prop where
  | refl (inTuple : Bool) (syn : YCPValue) : Below d inTuple syn inTuple syn
  | part {inTuple inTuple' : Bool} {syn e sub : YCPValue} (part : e ∈ (d.construct inTuple syn).parts)
      (below : Below d (inTuple || (d.construct inTuple syn).isTuple) e inTuple' sub) :
      Below d inTuple syn inTuple' sub

def inTuple (s : ParserState) : Bool := !s.tuples.isEmpty

/-- A syntax that never succeeds without taking text. -/
def TakesText (d : Description) (alldata : List Text) (within : Bool) (e : YCPValue) (optional : Bool) : Prop :=
  ∀ n line s r, inTuple s = within → d.parseData alldata n line e optional s = .gives r → r.value.isNull = false →
    unread alldata r.line r.state < unread alldata line s

/-- A syntax below which no `Continue` succeeds. -/
def NeverContinues (d : Description) (alldata : List Text) (e : YCPValue) : Prop :=
  ∀ n line optional s r, inTuple s = true → d.parseData alldata n line e optional s = .gives r →
    s.tupleContinue = false → r.state.tupleContinue = false

/-- The loop of a `List` takes text in each turn, and so does that of a `Tuple` that may be started again. -/
structure LoopsTakeText (d : Description) (alldata : List Text) (within : Bool) (syn : YCPValue) : Prop where
  list : ∀ e separator, d.construct within syn = .list e separator →
    TakesText d alldata within e false ∨ TakesText d alldata within separator false
  tuple : ∀ elements, d.construct within syn = .tuple elements →
    (∃ e ∈ elements, TakesText d alldata true e true) ∨ ∀ e ∈ elements, NeverContinues d alldata e

/-! ### The parts are smaller -/

section

variable {args elements : List YCPValue} {syn e : YCPValue} {c c' : Construct}

/-- Null, an argument of a term, or a match or an action in one. -/
def IsPart (args : List YCPValue) (e : YCPValue) : Prop :=
  e = null ∨ e ∈ args ∨ ∃ element ∈ args, ∃ a, alternative element = some a ∧ (e = a.1 ∨ e = a.2)

def MadeOf (args : List YCPValue) (c : Construct) : Prop := ∀ e ∈ c.parts, IsPart args e

lemma madeOf_ite {p : Prop} [Decidable p] (h : MadeOf args c) (h' : MadeOf args c') :
    MadeOf args (if p then c else c') := by
  split
  · exact h
  · exact h'

lemma madeOf_nil (h : c.parts = []) : MadeOf args c := by
  intro e he
  rw [h] at he
  cases he

lemma madeOf_args (h : c.parts = args) : MadeOf args c := by
  intro e he
  rw [h] at he
  exact .inr (.inl he)

lemma isPart_getD (args : List YCPValue) (i : ℕ) : IsPart args (args.getD i null) := by
  rw [List.getD_eq_getElem?_getD]
  cases h : args[i]? with
  | none => exact .inl rfl
  | some a => exact .inr (.inl (List.mem_of_getElem? h))

lemma madeOf_arg (h : c.parts = [args.headD null]) : MadeOf args c := by
  intro e he
  rw [h, List.mem_singleton] at he
  rw [he, List.headD_eq_head?_getD, List.head?_eq_getElem?, ← List.getD_eq_getElem?_getD]
  exact isPart_getD args 0

lemma madeOf_list : MadeOf args (.list (args.headD null) (args.getD 1 null)) := by
  intro e he
  rcases List.mem_cons.mp he with rfl | he
  · exact madeOf_arg (c := .optional _) rfl _ (List.mem_singleton_self _)
  · rw [List.mem_singleton.mp he]
    exact isPart_getD args 1

lemma madeOf_choice : MadeOf args (.choice args) := by
  intro e he
  obtain ⟨element, helement, he⟩ := List.mem_flatMap.mp he
  cases ha : alternative element with
  | none =>
    rw [ha] at he
    cases he
  | some a =>
    rw [ha] at he
    simp only [Option.map_some, Option.getD_some, List.mem_cons, List.not_mem_nil, or_false] at he
    exact .inr (.inr ⟨element, helement, a, ha, he⟩)

lemma madeOf_separator (set : YCPValue) : MadeOf args (separatorConstruct set) := by
  refine madeOf_nil ?_
  unfold separatorConstruct
  split
  · rfl
  · rfl

lemma madeOf_string (sets : List YCPValue) : MadeOf args (stringConstruct sets) := by
  refine madeOf_nil ?_
  unfold stringConstruct
  split
  · split
    · rfl
    · rfl
  · split
    · rfl
    · rfl
  · rfl

/-- Whatever a term is for `parseData`, it is made of the arguments. -/
lemma madeOf_term (d : Description) (within : Bool) (s : Text) (args : List YCPValue) :
    MadeOf args (d.termConstruct within s args) := by
  unfold Description.termConstruct
  dsimp only
  repeat' apply madeOf_ite
  all_goals first
    | exact madeOf_nil rfl
    | exact madeOf_args rfl
    | exact madeOf_arg rfl
    | exact madeOf_list
    | exact madeOf_choice
    | exact madeOf_separator _
    | exact madeOf_string _

lemma sizeOf_alternative {element : YCPValue} {a : YCPValue × YCPValue} (h : alternative element = some a) :
    sizeOf a.1 < sizeOf element ∧ (a.2 = null ∨ sizeOf a.2 < sizeOf element) := by
  unfold alternative at h
  split at h
  · cases h
    simp
    omega
  · cases h
    simp
    omega
  · cases h

lemma sizeOf_part {d : Description} {within : Bool} (h : e ∈ (d.construct within syn).parts) :
    e = null ∨ sizeOf e < sizeOf syn := by
  cases syn with
  | term s args =>
    have hargs : ∀ v ∈ args, sizeOf v < sizeOf (term s args) := by
      intro v hv
      have hlt := List.sizeOf_lt_of_mem hv
      simp only [term.sizeOf_spec]
      omega
    rcases madeOf_term d within s args e h with rfl | he | ⟨element, helement, a, ha, he⟩
    · exact .inl rfl
    · exact .inr (hargs e he)
    · obtain ⟨hmatch, haction⟩ := sizeOf_alternative ha
      have helement' := hargs element helement
      rcases he with rfl | rfl
      · exact .inr (by omega)
      · rcases haction with hnull | hlt
        · exact .inl hnull
        · exact .inr (by omega)
  | _ => cases h

end

/-! ### The loops that are bounded -/

/-- The syntax is parsed to an end wherever this starts. -/
def AlwaysEnds (d : Description) (alldata : List Text) (within : Bool) (e : YCPValue) : Prop :=
  ∀ line optional s, inTuple s = within → Terminates d alldata line e optional s

lemma Ahead.inTuple_eq {alldata : List Text} {line line' : Option Cursor} {s s' : ParserState}
    (h : Ahead alldata line s line' s') : inTuple s' = inTuple s := by
  have hframes := h.frames
  unfold inTuple
  cases hs : s.tuples with
  | nil =>
    rw [hs] at hframes
    rw [List.eq_nil_of_length_eq_zero hframes]
  | cons a tuples =>
    cases hs' : s'.tuples with
    | nil =>
      rw [hs, hs'] at hframes
      cases hframes
    | cons b tuples' => rfl

section

variable {d : Description} {alldata : List Text} {within : Bool} {e : YCPValue} {elements : List YCPValue}
  {line : Option Cursor} {optional : Bool} {s : ParserState} {f : ℕ → Parsed → Answer Parsed}

/-- What follows on a part is only to be shown to end for what the part can give. -/
lemma AlwaysEnds.bind (h : AlwaysEnds d alldata within e) (hs : inTuple s = within)
    (hf : ∀ k r, d.parseData alldata k line e optional s = .gives r → Ahead alldata line s r.line r.state →
      inTuple r.state = within → Ends fun n => f n r) :
    Ends fun n => d.parseData alldata n line e optional s >>= f n := by
  refine (h line optional s hs).bind fun r hr => ?_
  obtain ⟨-, n, hn⟩ := hr
  have hgives := hn n (Nat.le_refl n)
  have hahead := parseData_ahead d alldata n line e optional s r hgives
  exact hf n r hgives hahead (hahead.inTuple_eq.trans hs)

lemma ends_parseChoice (h : ∀ e ∈ (Construct.choice elements).parts, AlwaysEnds d alldata within e)
    (hs : inTuple s = within) :
    Ends fun n => parseChoice (d.parseData alldata n) line optional elements s := by
  induction elements generalizing s with
  | nil => exact ends_gives _
  | cons element rest ih =>
    have hrest : ∀ e ∈ (Construct.choice rest).parts, AlwaysEnds d alldata within e := by
      intro e he
      exact h e (List.mem_append_right _ he)
    cases ha : alternative element with
    | none =>
      simp only [parseChoice, ha]
      exact ends_gives _
    | some a =>
      have hparts : ∀ e ∈ [a.1, a.2], AlwaysEnds d alldata within e := by
        intro e he
        refine h e (List.mem_append_left _ ?_)
        dsimp only
        rw [ha]
        exact he
      simp only [parseChoice, ha]
      refine (hparts a.1 (by simp)).bind hs fun k r hr hahead hr' => ?_
      split
      · exact ih hrest hr'
      split
      · exact ends_gives _
      · exact hparts a.2 (by simp) _ _ _ hr'

lemma ends_parseEach {last : Parsed} (h : ∀ e ∈ elements, AlwaysEnds d alldata within e)
    (hs : inTuple last.state = within) :
    Ends fun n => parseEach (d.parseData alldata n) optional elements last := by
  induction elements generalizing last with
  | nil => exact ends_gives _
  | cons e elements ih =>
    simp only [parseEach]
    refine (h e List.mem_cons_self).bind hs fun k r hr hahead hr' => ?_
    split
    · exact ends_gives _
    · exact ih (fun e he => h e (List.mem_cons_of_mem _ he)) hr'

lemma ends_parseSequence {lstart : Cursor} (h : ∀ e ∈ elements, AlwaysEnds d alldata within e)
    (hs : inTuple s = within) :
    Ends fun n => parseSequence (d.parseData alldata n) lstart elements optional s := by
  refine (ends_parseEach h hs).bind fun r _ => ?_
  split
  · exact ends_gives _
  split
  · exact ends_gives _
  · exact ends_undefined

lemma ends_parseOr {ltry : Option Cursor} (h : ∀ e ∈ elements, AlwaysEnds d alldata within e)
    (hs : inTuple s = within) :
    Ends fun n => parseOr (d.parseData alldata n) line optional elements ltry s := by
  induction elements generalizing ltry s with
  | nil => exact ends_gives _
  | cons e elements ih =>
    simp only [parseOr]
    refine (h e List.mem_cons_self).bind hs fun k r hr hahead hr' => ?_
    split
    · exact ih (fun e he => h e (List.mem_cons_of_mem _ he)) hr'
    · exact ends_gives _

/-- Twice the text that is left, and once more for the empty text at the end. -/
lemma ends_fillupLoop (fillup : Text) {k : ℕ} (hk : 2 * unread alldata line s + (if s.got_anything then 0 else 1) ≤ k) :
    Ends fun n => d.fillupLoop alldata n fillup line s := by
  induction k using Nat.strong_induction_on generalizing fillup line s with
  | _ k ih =>
    cases line with
    | none => exact (ends_gives _).shift fun n => rfl
    | some c =>
      by_cases hcomment : d.mComment.contains (c.text.headD 0) = true
      · refine Ends.shift ?_ (r := fun n => d.fillupLoop alldata n (fillup ++ c.text) (d.getLine alldata s).1
          (d.getLine alldata s).2) fun n => by rw [Description.fillupLoop, if_pos hcomment]
        have hline := getLine_spec d alldata s
        generalize d.getLine alldata s = next at hline ⊢
        obtain ⟨line', s'⟩ := next
        dsimp only at hline ⊢
        have hle : linesLeft alldata s ≤ unread alldata (some c) s := Nat.le_add_left _ _
        cases hline with
        | line later less tuples got =>
          refine ih _ ?_ _ (Nat.le_refl _)
          rw [got, if_pos rfl]
          omega
        | empty later atEnd nothing tuples before got =>
          refine ih _ ?_ _ (Nat.le_refl _)
          rw [got, if_pos rfl, unread, nothing, Option.map_some, Option.getD_some, atEnd, List.length_nil]
          rw [before, if_neg Bool.false_ne_true] at hk
          omega
        | ended later nothing tuples got => exact (ends_gives _).shift fun n => rfl
      · refine (ends_gives ⟨string fillup, some c, s⟩).shift fun n => ?_
        rw [Description.fillupLoop, if_neg hcomment, pure_eq]

/-! ### The loops that are not -/

/-- One turn less is left than before. -/
lemma sub_eq_succ {m j : ℕ} (h : j + 1 ≤ m) : m - j = m - (j + 1) + 1 := by omega

/-- One turn of the loop of `parseList`. -/
lemma ends_listTurn {separator : YCPValue} {values : List YCPValue} (j : ℕ)
    (he : AlwaysEnds d alldata within e) (hseparator : AlwaysEnds d alldata within separator)
    (hs : inTuple s = within)
    (hmore : ∀ k k' r r' values, d.parseData alldata k line e optional s = .gives r → r.value.isNull = false →
      Ahead alldata line s r.line r.state → d.parseData alldata k' r.line separator false r.state = .gives r' →
      r'.value.isNull = false → Ahead alldata r.line r.state r'.line r'.state → inTuple r'.state = within →
        Ends fun n => parseList (d.parseData alldata n) e separator (n - (j + 1)) r'.line false values r'.state) :
    Ends fun n => parseList (d.parseData alldata n) e separator (n - j) line optional values s := by
  refine Ends.congr (r := fun n => d.parseData alldata n line e optional s >>= fun vl =>
    if vl.value.isNull then pure { vl with value := .list values }
    else
      d.parseData alldata n vl.line separator false vl.state >>= fun vs =>
        if vs.value.isNull then
          pure { vs with value := .list (if vl.value.isVoid then values else values ++ [vl.value]) }
        else
          parseList (d.parseData alldata n) e separator (n - (j + 1)) vs.line false
            (if vl.value.isVoid then values else values ++ [vl.value]) vs.state) ?_ (j + 1) fun m hm => ?_
  · refine he.bind hs fun k r hr hahead hr' => ?_
    split
    · exact ends_gives _
    next hnull =>
      refine hseparator.bind hr' fun k' r' hgives hahead' hr'' => ?_
      split
      · exact ends_gives _
      next hnull' =>
        have hvalue : r.value.isNull = false := Bool.eq_false_iff.mpr hnull
        have hvalue' : r'.value.isNull = false := Bool.eq_false_iff.mpr hnull'
        exact hmore k k' r r' _ hr hvalue hahead hgives hvalue' hahead' hr''
  · rw [sub_eq_succ hm, parseList]

/-- The loop of `parseList` ends where the element or the separator takes text. -/
lemma ends_parseList {separator : YCPValue} {values : List YCPValue} (he : AlwaysEnds d alldata within e)
    (hseparator : AlwaysEnds d alldata within separator)
    (htakes : TakesText d alldata within e false ∨ TakesText d alldata within separator false)
    (hs : inTuple s = within) (j : ℕ) :
    Ends fun n => parseList (d.parseData alldata n) e separator (n - j) line optional values s := by
  -- the first turn may take no text, as the element may be optional in it
  have hlater : ∀ k j line values s, inTuple s = within → unread alldata line s ≤ k →
      Ends fun n => parseList (d.parseData alldata n) e separator (n - j) line false values s := by
    intro k
    induction k using Nat.strong_induction_on with
    | _ k ih =>
      intro j line values s hs hk
      refine ends_listTurn j he hseparator hs fun i i' r r' values hr hnull hahead hr' hnull' hahead' hs' => ?_
      have hle := hahead.shrinks
      have hle' := hahead'.shrinks
      rcases htakes with htakes | htakes
      · have hlt := htakes i line s r hs hr hnull
        exact ih _ (by omega) (j + 1) _ _ _ hs' (Nat.le_refl _)
      · have hlt := htakes i' r.line r.state r' (hahead.inTuple_eq.trans hs) hr' hnull'
        exact ih _ (by omega) (j + 1) _ _ _ hs' (Nat.le_refl _)
  refine ends_listTurn j he hseparator hs fun i i' r r' values _ _ _ _ _ _ hs' => ?_
  exact hlater _ (j + 1) _ _ _ hs' (Nat.le_refl _)

/-- One element of the loop of `parseTuple`. -/
lemma ends_tupleElement {rest : List YCPValue} {entries : List (YCPValue × YCPValue)} (j : ℕ)
    (he : AlwaysEnds d alldata true e) (hs : inTuple s = true)
    (hmore : ∀ k r t entries, d.parseData alldata k line e optional s = .gives r → r.value.isNull = false →
      Ahead alldata line s r.line t → unread alldata r.line t = unread alldata r.line r.state →
      t.tupleContinue = r.state.tupleContinue →
        (t.tupleContinue = true → rest = [] →
          Ends fun n => parseTuple (d.parseData alldata n) elements (n - (j + 1)) r.line elements true entries
            { t with tupleContinue := false }) ∧
        Ends fun n => parseTuple (d.parseData alldata n) elements (n - (j + 1)) r.line rest optional entries t) :
    Ends fun n => parseTuple (d.parseData alldata n) elements (n - j) line (e :: rest) optional entries s := by
  refine Ends.congr (r := fun n => d.parseData alldata n line e optional s >>= fun r =>
    if r.value.isNull then pure { r with value := if optional then map entries else null }
    else if (takeEntry entries r.state).2.tupleContinue && rest.isEmpty then
      parseTuple (d.parseData alldata n) elements (n - (j + 1)) r.line elements true (takeEntry entries r.state).1
        { (takeEntry entries r.state).2 with tupleContinue := false }
    else
      parseTuple (d.parseData alldata n) elements (n - (j + 1)) r.line rest optional (takeEntry entries r.state).1
        (takeEntry entries r.state).2) ?_ (j + 1) fun m hm => ?_
  · refine he.bind hs fun k r hr hahead hr' => ?_
    split
    · exact ends_gives _
    next hnull =>
      obtain ⟨hline, -, -, hcontinue⟩ := takeEntry_state entries r.state
      have hunread : unread alldata r.line (takeEntry entries r.state).2 = unread alldata r.line r.state := by
        rw [unread, unread, linesLeft, linesLeft, hline]
      obtain ⟨hrestart, hgoes⟩ := hmore k r _ (takeEntry entries r.state).1 hr (Bool.eq_false_iff.mpr hnull)
        (hahead.takeEntry entries) hunread hcontinue
      split
      next hcontinue =>
        rw [Bool.and_eq_true, List.isEmpty_iff] at hcontinue
        exact hrestart hcontinue.1 hcontinue.2
      · exact hgoes
  · rw [sub_eq_succ hm, parseTuple]

/-- A turn that is optional ends, as an element of it takes text. -/
lemma ends_tupleTurns (he : ∀ e ∈ elements, AlwaysEnds d alldata true e)
    (htakes : ∃ e ∈ elements, TakesText d alldata true e true) (k : ℕ) :
    ∀ j line entries s, inTuple s = true → unread alldata line s ≤ k →
      Ends fun n => parseTuple (d.parseData alldata n) elements (n - j) line elements true entries s := by
  induction k using Nat.strong_induction_on with
  | _ k ih =>
    -- within the turn: an element has taken text, or one that does is still to come
    have hturn : ∀ rest : List YCPValue, (∀ e ∈ rest, AlwaysEnds d alldata true e) → ∀ j line entries s,
        inTuple s = true → unread alldata line s ≤ k →
        (unread alldata line s < k ∨ ∃ e ∈ rest, TakesText d alldata true e true) →
        Ends fun n => parseTuple (d.parseData alldata n) elements (n - j) line rest true entries s := by
      intro rest
      induction rest with
      | nil =>
        intro _ j line entries s _ _ _
        simp only [parseTuple]
        exact ends_gives _
      | cons e rest ihrest =>
        intro hrest j line entries s hs hk hcome
        refine ends_tupleElement j (hrest e List.mem_cons_self) hs fun i r t entries hr hnull hahead hunread _ => ?_
        have hle := hahead.shrinks
        have ht : inTuple t = true := hahead.inTuple_eq.trans hs
        have hcome' : unread alldata r.line t < k ∨ ∃ e ∈ rest, TakesText d alldata true e true := by
          rcases hcome with hlt | ⟨e', he', htakes'⟩
          · exact .inl (by omega)
          · rcases List.mem_cons.mp he' with rfl | he'
            · have hlt := htakes' i line s r hs hr hnull
              exact .inl (by omega)
            · exact .inr ⟨e', he', htakes'⟩
        constructor
        · rintro _ rfl
          have hlt : unread alldata r.line t < k := by
            rcases hcome' with hlt | ⟨e, he, -⟩
            · exact hlt
            · cases he
          exact ih _ hlt (j + 1) _ _ _ ht (Nat.le_refl _)
        · exact ihrest (fun e he => hrest e (List.mem_cons_of_mem _ he)) (j + 1) _ _ _ ht (by omega) hcome'
    intro j line entries s hs hk
    exact hturn elements he j line entries s hs hk (.inr htakes)

/-- The loop of `parseTuple` ends where an element takes text, or where it is not started again. -/
lemma ends_parseTuple (he : ∀ e ∈ elements, AlwaysEnds d alldata true e)
    (htakes : (∃ e ∈ elements, TakesText d alldata true e true) ∨ ∀ e ∈ elements, NeverContinues d alldata e)
    {entries : List (YCPValue × YCPValue)} (hs : inTuple s = true) (hcontinue : s.tupleContinue = false) (j : ℕ) :
    Ends fun n => parseTuple (d.parseData alldata n) elements (n - j) line elements optional entries s := by
  have hturn : ∀ rest : List YCPValue, rest ⊆ elements → ∀ j line entries s, inTuple s = true →
      (s.tupleContinue = false ∨ ∃ e ∈ elements, TakesText d alldata true e true) →
      Ends fun n => parseTuple (d.parseData alldata n) elements (n - j) line rest optional entries s := by
    intro rest
    induction rest with
    | nil =>
      intro _ j line entries s _ _
      simp only [parseTuple]
      exact ends_gives _
    | cons e rest ih =>
      intro hrest j line entries s hs hcase
      have hmem : e ∈ elements := hrest List.mem_cons_self
      refine ends_tupleElement j (he e hmem) hs fun i r t entries hr hnull hahead _ ht => ?_
      have hin : inTuple t = true := hahead.inTuple_eq.trans hs
      have hcase' : t.tupleContinue = false ∨ ∃ e ∈ elements, TakesText d alldata true e true := by
        rcases htakes with htakes | hnever
        · exact .inr htakes
        · rcases hcase with hfalse | htakes
          · exact .inl (ht.trans (hnever e hmem i line optional s r hs hr hfalse))
          · exact .inr htakes
      constructor
      · intro htrue _
        rcases hcase' with hfalse | htakes
        · rw [htrue] at hfalse
          cases hfalse
        · exact ends_tupleTurns he htakes _ (j + 1) _ _ _ hin (Nat.le_refl _)
      · exact ih (List.subset_of_cons_subset hrest) (j + 1) _ _ _ hin hcase'
  exact hturn elements (List.Subset.refl _) j line entries s hs (.inl hcontinue)

end

/-! ### The whole parser -/

section

variable {d : Description} {alldata : List Text} {within : Bool}

lemma ends_parseConstruct {syn : YCPValue} {construct : Construct} (hconstruct : d.construct within syn = construct)
    (hparts : ∀ e ∈ construct.parts, AlwaysEnds d alldata (within || construct.isTuple) e)
    (hloops : LoopsTakeText d alldata within syn) (line : Cursor) (optional : Bool) {s : ParserState}
    (hs : inTuple s = within) :
    Ends fun n => d.parseConstruct alldata (d.parseData alldata n) n line optional s construct := by
  have hone : ∀ e, construct.parts = [e] → construct.isTuple = false → AlwaysEnds d alldata within e := by
    intro e he hnot
    have hpart := hparts e (by simp [he])
    rwa [hnot, Bool.or_false] at hpart
  have hall : construct.isTuple = false → ∀ e ∈ construct.parts, AlwaysEnds d alldata within e := by
    intro hnot e he
    have hpart := hparts e he
    rwa [hnot, Bool.or_false] at hpart
  cases construct with
  | optional e => exact (hone e rfl rfl).bind hs fun _ _ _ _ _ => ends_gives _
  | continues e => exact (hone e rfl rfl).bind hs fun _ _ _ _ _ => ends_gives _
  | choice elements => exact ends_parseChoice (hall rfl) hs
  | sequence elements => exact ends_parseSequence (hall rfl) hs
  | list e separator =>
    exact ends_parseList (hall rfl e (by simp [Construct.parts])) (hall rfl separator (by simp [Construct.parts]))
      (hloops.list e separator hconstruct) hs 0
  | tuple elements =>
    have hends : ∀ e ∈ elements, AlwaysEnds d alldata true e := by
      intro e he
      have hpart := hparts e he
      rwa [Construct.isTuple, Bool.or_true] at hpart
    exact (ends_parseTuple hends (hloops.tuple elements hconstruct) rfl rfl 0).bind fun _ _ => ends_gives _
  | var elements => exact (ends_parseEach (hall rfl) hs).bind fun _ _ => ends_gives _
  | name e => exact (hone e rfl rfl).bind hs fun _ _ _ _ _ => ends_gives _
  | value e => exact (hone e rfl rfl).bind hs fun _ _ _ _ _ => ends_gives _
  | fillup => exact (ends_fillupLoop [] (Nat.le_refl _)).bind fun _ _ => ends_gives _
  | skip => exact ends_gives _
  | current => exact ends_gives _
  | or elements => exact ends_parseOr (hall rfl) hs
  | basic p => exact ends_gives _
  | named name e =>
    have hname : inTuple (s.setName name) = within := by
      have hahead : Ahead alldata (some line) s (some line) (s.setName name) := (Ahead.refl (some line) s).setName name
      exact hahead.inTuple_eq.trans hs
    exact (hone e rfl rfl).bind hname fun _ _ _ _ _ => ends_gives _
  | unknown => exact ends_gives _
  | bad => exact ends_gives _
  | undefined => exact ends_undefined

lemma alwaysEnds_of_parts {syn : YCPValue}
    (hparts : ∀ e ∈ (d.construct within syn).parts,
      AlwaysEnds d alldata (within || (d.construct within syn).isTuple) e)
    (hloops : LoopsTakeText d alldata within syn) : AlwaysEnds d alldata within syn := by
  intro line optional s hs
  have hhead := nextText_ahead d alldata line s
  cases hnext : d.nextText alldata line s with
  | mk line' s' =>
    rw [hnext] at hhead
    have hs' : inTuple s' = within := hhead.inTuple_eq.trans hs
    cases line' with
    | none =>
      refine (ends_gives ⟨null, none, s'⟩).shift fun n => ?_
      rw [Description.parseData, hnext]
      rfl
    | some c =>
      refine (ends_parseConstruct rfl hparts hloops c optional hs').shift fun n => ?_
      rw [Description.parseData, hnext, ← hs']
      rfl

lemma loopsTakeText_null : LoopsTakeText d alldata within null := by
  constructor
  · intro e separator h
    cases h
  · intro elements h
    cases h

/-- A syntax is parsed to an end if all the loops below it take text in every turn. -/
lemma alwaysEnds_of_below {syn : YCPValue}
    (h : ∀ within' sub, Below d within syn within' sub → LoopsTakeText d alldata within' sub) :
    AlwaysEnds d alldata within syn := by
  induction hk : sizeOf syn using Nat.strong_induction_on generalizing syn within with
  | _ k ih =>
    refine alwaysEnds_of_parts (fun e he => ?_) (h _ _ (.refl within syn))
    rcases sizeOf_part he with rfl | hlt
    · exact alwaysEnds_of_parts (fun e he => by cases he) loopsTakeText_null
    · exact ih _ (by omega) (fun within' sub hsub => h within' sub (.part he hsub)) rfl

end

/-- `parseData` terminates for every finite list of lines, from every state and at every position, if in the
syntax each `List` has an element or a separator that never succeeds without taking text, and each `Tuple` an
element that does not where it is optional, unless no `Continue` succeeds in it. -/
theorem parseData_terminates (d : Description) (alldata : List Text) (line : Option Cursor) (syn : YCPValue)
    (optional : Bool) (s : ParserState)
    (h : ∀ within sub, Below d (inTuple s) syn within sub → LoopsTakeText d alldata within sub) :
    Terminates d alldata line syn optional s := alwaysEnds_of_below h line optional s rfl

/-! ### Two lists -/

/-- A basic parser that takes text whenever it succeeds does so as a syntax. -/
lemma takesText_basic {d : Description} {alldata : List Text} {within : Bool} {e : YCPValue} {optional : Bool}
    {p : BasicParser} (hconstruct : d.construct within e = .basic p)
    (hp : ∀ lptr, (p.parse lptr optional).1.isNull = false → (p.parse lptr optional).2.length < lptr.length) :
    TakesText d alldata within e optional := by
  intro n line s r hs hr hnull
  cases n with
  | zero => cases hr
  | succ n =>
    have hhead := nextText_ahead d alldata line s
    rw [Description.parseData] at hr
    cases hnext : d.nextText alldata line s with
    | mk line' s' =>
      rw [hnext] at hr hhead
      cases line' with
      | none =>
        cases hr
        cases hnull
      | some c =>
        have hs' : (!s'.tuples.isEmpty) = within := hhead.inTuple_eq.trans hs
        dsimp only at hr
        rw [hs', hconstruct, Description.parseConstruct] at hr
        cases hr
        have hlt := hp c.text hnull
        have hle := hhead.shrinks
        simp only [unread, Option.map_some, Option.getD_some] at hle ⊢
        omega

lemma parseSeparator_takes (set lptr : Text) (h : (parseSeparator set lptr false).1.isNull = false) :
    (parseSeparator set lptr false).2.length < lptr.length := by
  cases lptr with
  | nil => cases h
  | cons c lptr =>
    rw [parseSeparator] at h ⊢
    cases hc : set.contains c with
    | true =>
      have hle : (lptr.dropWhile fun c => set.contains c).length ≤ lptr.length := List.length_dropWhile_le _ _
      simp only [List.dropWhile_cons, hc, if_true, List.length_cons]
      omega
    | false =>
      simp only [List.takeWhile_cons, hc, List.isEmpty_nil, Bool.false_eq_true, if_false] at h
      cases h

/-- There are no loops in a basic type. -/
lemma loopsTakeText_basic {d : Description} {alldata : List Text} {within within' : Bool} {e sub : YCPValue}
    {p : BasicParser} (hconstruct : d.construct within e = .basic p) (h : Below d within e within' sub) :
    LoopsTakeText d alldata within' sub := by
  cases h with
  | refl =>
    constructor
    · intro e' separator h
      rw [hconstruct] at h
      cases h
    · intro elements h
      rw [hconstruct] at h
      cases h
  | part part below =>
    rw [hconstruct] at part
    cases part

/-- `Separator (",")` -/
def comma : YCPValue := term (ascii "Separator") [string (ascii ",")]

/-- `List (Number (), Separator (","))` -/
def numberList : YCPValue := term (ascii "List") [term (ascii "Number") [], comma]

theorem parseData_terminates_numberList :
    (∀ within sub, Below plainDescription (inTuple freshState) numberList within sub →
      LoopsTakeText plainDescription [ascii "1,2"] within sub) ∧
      Terminates plainDescription [ascii "1,2"] none numberList false freshState := by
  have hloops : ∀ within sub, Below plainDescription (inTuple freshState) numberList within sub →
      LoopsTakeText plainDescription [ascii "1,2"] within sub := by
    intro within sub hsub
    cases hsub with
    | refl =>
      constructor
      · intro e separator h
        cases h
        exact .inr (takesText_basic (p := .separator (ascii ",")) rfl (parseSeparator_takes (ascii ",")))
      · intro elements h
        cases h
    | @part _ _ _ e _ part below =>
      have he : e ∈ [term (ascii "Number") [], comma] := part
      rcases List.mem_pair.mp he with rfl | rfl
      · exact loopsTakeText_basic (p := .number) rfl below
      · exact loopsTakeText_basic (p := .separator (ascii ",")) rfl below
  exact ⟨hloops, parseData_terminates _ _ _ _ _ _ hloops⟩

/-- `List (Skip (), Skip ())` -/
def skipList : YCPValue := term (ascii "List") [term (ascii "Skip") [], term (ascii "Skip") []]

/-- No number of turns is enough for it where there is text. -/
lemma parseList_skip (n m : ℕ) (optional : Bool) (values : List YCPValue) (s : ParserState) :
    parseList (plainDescription.parseData [ascii "a"] n) (term (ascii "Skip") []) (term (ascii "Skip") []) m
      (some ⟨0, ascii "a"⟩) optional values s = .pending := by
  induction m generalizing optional values with
  | zero => rfl
  | succ m ih =>
    rw [parseList]
    cases n with
    | zero => rfl
    | succ n =>
      have hskip : ∀ optional, plainDescription.parseData [ascii "a"] (n + 1) (some ⟨0, ascii "a"⟩)
          (term (ascii "Skip") []) optional s = .gives ⟨void, some ⟨0, ascii "a"⟩, s⟩ := fun _ => rfl
      rw [hskip, gives_bind]
      dsimp only
      rw [if_neg (by decide), hskip, gives_bind]
      exact ih false _

/-- From the line `a` it takes nothing for ever. -/
theorem skipList_not_terminates : ¬ Terminates plainDescription [ascii "a"] none skipList false freshState := by
  refine not_ends_of_pending fun n => ?_
  cases n with
  | zero => rfl
  | succ n => exact parseList_skip n n false [] _

end YastCore.AnyAgent
