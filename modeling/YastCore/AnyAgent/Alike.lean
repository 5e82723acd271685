import YastCore.AnyAgent.Parse

/-!
# States that parse alike

What one parse leaves for the next: the flag of `Continue` never matters, since each `Tuple` sets it first. The
match of the last `Choice` matters only to a `Match` that is not in the action of another `Choice`.
-/

namespace YastCore.AnyAgent

open Bounded Lines Transport YCPValue

/-- Two states that differ in the current match unless `matched`, and in the flag of `Continue` unless
`continued`. -/
structure Alike (matched continued : Bool) (s t : ParserState) : Prop where
  nextLine : t.nextLine = s.nextLine
  got_anything : t.got_anything = s.got_anything
  tuples : t.tuples = s.tuples
  currentMatch : matched = true → t.currentMatch = s.currentMatch
  tupleContinue : continued = true → t.tupleContinue = s.tupleContinue

/-- The same value and the same pointer, and states that are alike. -/
structure AlikeParsed (matched continued : Bool) (r r' : Parsed) : Prop where
  value : r'.value = r.value
  line : r'.line = r.line
  state : Alike matched continued r.state r'.state

/-- A parser that does the same on a syntax from states that are alike. -/
def Respects (parse : Parser) (matched : Bool) (e : YCPValue) : Prop :=
  ∀ continued line optional s t, Alike matched continued s t →
    Related (AlikeParsed matched continued) (parse line e optional s) (parse line e optional t)

section

variable {matched continued : Bool} {s t : ParserState} {r r' : Parsed}

lemma Alike.matchesAny (h : Alike true continued s t) : Alike matched continued s t :=
  ⟨h.nextLine, h.got_anything, h.tuples, fun _ => h.currentMatch rfl, h.tupleContinue⟩

lemma Alike.continuesAny (h : Alike matched true s t) : Alike matched continued s t :=
  ⟨h.nextLine, h.got_anything, h.tuples, h.currentMatch, fun _ => h.tupleContinue rfl⟩

lemma Alike.withMatch (h : Alike matched continued s t) (v : YCPValue) :
    Alike true continued { s with currentMatch := v } { t with currentMatch := v } :=
  ⟨h.nextLine, h.got_anything, h.tuples, fun _ => rfl, h.tupleContinue⟩

lemma Alike.withContinue (h : Alike matched continued s t) (b : Bool) :
    Alike matched true { s with tupleContinue := b } { t with tupleContinue := b } :=
  ⟨h.nextLine, h.got_anything, h.tuples, h.currentMatch, fun _ => rfl⟩

lemma Alike.setName (h : Alike matched continued s t) (name : Text) :
    Alike matched continued (s.setName name) (t.setName name) := by
  unfold ParserState.setName
  rw [h.tuples]
  cases s.tuples with
  | nil => exact h
  | cons a tuples => exact ⟨h.nextLine, h.got_anything, rfl, h.currentMatch, h.tupleContinue⟩

lemma Alike.setValue (h : Alike matched continued s t) (value : YCPValue) :
    Alike matched continued (s.setValue value) (t.setValue value) := by
  unfold ParserState.setValue
  rw [h.tuples]
  cases s.tuples with
  | nil => exact h
  | cons a tuples => exact ⟨h.nextLine, h.got_anything, rfl, h.currentMatch, h.tupleContinue⟩

lemma Alike.takeEntry (h : Alike matched continued s t) (entries : List (YCPValue × YCPValue)) :
    (takeEntry entries t).1 = (takeEntry entries s).1 ∧
      Alike matched continued (takeEntry entries s).2 (takeEntry entries t).2 := by
  unfold AnyAgent.takeEntry
  rw [h.tuples]
  cases s.tuples with
  | nil => exact ⟨rfl, h⟩
  | cons a tuples =>
    dsimp only
    split
    · exact ⟨rfl, h.nextLine, h.got_anything, rfl, h.currentMatch, h.tupleContinue⟩
    · exact ⟨rfl, h⟩

lemma AlikeParsed.intro (v : YCPValue) (line : Option Cursor) (h : Alike matched continued s t) :
    AlikeParsed matched continued ⟨v, line, s⟩ ⟨v, line, t⟩ := ⟨rfl, rfl, h⟩

/-- The results of two parsers that are followed by the same. -/
lemma related_bind {matched' continued' : Bool} {a a' : Answer Parsed} {f : Parsed → Answer Parsed}
    (h : Related (AlikeParsed matched continued) a a')
    (hf : ∀ v line s t, Alike matched continued s t →
      Related (AlikeParsed matched' continued') (f ⟨v, line, s⟩) (f ⟨v, line, t⟩)) :
    Related (AlikeParsed matched' continued') (a >>= f) (a' >>= f) := by
  refine h.bind fun r r' hr => ?_
  obtain ⟨v, line, s⟩ := r
  obtain ⟨v', line', t⟩ := r'
  obtain ⟨hv, hline, hs⟩ := hr
  dsimp only at hv hline hs
  subst hv hline
  exact hf _ _ _ _ hs

lemma related_gives (v : YCPValue) (line : Option Cursor) (h : Alike matched continued s t) :
    Related (AlikeParsed matched continued) (.gives ⟨v, line, s⟩) (.gives ⟨v, line, t⟩) :=
  .gives (AlikeParsed.intro v line h)

/-! ### Getting lines -/

lemma getLineFrom_alike (d : Description) (lines : List Text) (h : Alike matched continued s t) :
    (d.getLineFrom lines t).1 = (d.getLineFrom lines s).1 ∧
      Alike matched continued (d.getLineFrom lines s).2 (d.getLineFrom lines t).2 := by
  induction lines generalizing s t with
  | nil =>
    rw [Description.getLineFrom, Description.getLineFrom, h.got_anything]
    have hnext : t.nextLine + 1 = s.nextLine + 1 := congrArg (· + 1) h.nextLine
    split
    · exact ⟨rfl, hnext, rfl, h.tuples, h.currentMatch, h.tupleContinue⟩
    · exact ⟨by rw [h.nextLine], hnext, rfl, h.tuples, h.currentMatch, h.tupleContinue⟩
  | cons line lines ih =>
    rw [Description.getLineFrom, Description.getLineFrom]
    have hnext : t.nextLine + 1 = s.nextLine + 1 := congrArg (· + 1) h.nextLine
    split
    · exact ih ⟨hnext, h.got_anything, h.tuples, h.currentMatch, h.tupleContinue⟩
    · exact ⟨by rw [h.nextLine], hnext, rfl, h.tuples, h.currentMatch, h.tupleContinue⟩

lemma getLine_alike (d : Description) (alldata : List Text) (h : Alike matched continued s t) :
    (d.getLine alldata t).1 = (d.getLine alldata s).1 ∧
      Alike matched continued (d.getLine alldata s).2 (d.getLine alldata t).2 := by
  unfold Description.getLine
  rw [h.nextLine]
  exact getLineFrom_alike d _ h

lemma nextText_alike (d : Description) (alldata : List Text) (line : Option Cursor) (h : Alike matched continued s t) :
    (d.nextText alldata line t).1 = (d.nextText alldata line s).1 ∧
      Alike matched continued (d.nextText alldata line s).2 (d.nextText alldata line t).2 := by
  unfold Description.nextText
  split
  · exact ⟨rfl, h⟩
  · exact getLine_alike d alldata h

lemma fillupLoop_alike (d : Description) (alldata : List Text) (n : ℕ) (fillup : Text) (line : Option Cursor)
    (h : Alike matched continued s t) :
    Related (AlikeParsed matched continued) (d.fillupLoop alldata n fillup line s)
      (d.fillupLoop alldata n fillup line t) := by
  induction n generalizing fillup line s t with
  | zero => exact .pending
  | succ n ih =>
    cases line with
    | none => exact related_gives _ _ h
    | some c =>
      rw [Description.fillupLoop, Description.fillupLoop]
      obtain ⟨hline, hstate⟩ := getLine_alike d alldata h
      refine .ite (fun _ => ?_) (fun _ => related_gives _ _ h)
      rw [hline]
      exact ih _ _ hstate

/-! ### The parsers -/

variable {parse : Parser} {elements : List YCPValue}

lemma parseChoice_alike (htrue : ∀ e, Respects parse true e) (line : Option Cursor) (optional : Bool)
    (hmatch : ∀ element ∈ elements, ∀ a, alternative element = some a → Respects parse matched a.1)
    (h : Alike matched continued s t) :
    Related (AlikeParsed matched continued) (parseChoice parse line optional elements s)
      (parseChoice parse line optional elements t) := by
  induction elements generalizing matched s t with
  | nil => exact related_gives _ _ h
  | cons element rest ih =>
    rw [parseChoice, parseChoice]
    cases ha : alternative element with
    | none => exact related_gives _ _ h
    | some a =>
      refine related_bind (hmatch element List.mem_cons_self a ha _ _ _ _ _ h) fun v line' s' t' h' => ?_
      have htried := h'.withMatch v
      have hany : ∀ r r', AlikeParsed true continued r r' → AlikeParsed matched continued r r' :=
        fun _ _ hr => ⟨hr.value, hr.line, hr.state.matchesAny⟩
      refine .ite (fun _ => ?_) fun _ => .ite (fun _ => ?_) fun _ => ?_
      · exact (ih (fun _ _ _ _ => htrue _) htried).mono hany
      · exact related_gives _ _ htried.matchesAny
      · exact (htrue _ _ _ _ _ _ htried).mono hany

lemma parseEach_alike (optional : Bool) (hparts : ∀ e ∈ elements, Respects parse matched e) (v : YCPValue)
    (line : Option Cursor) (h : Alike matched continued s t) :
    Related (AlikeParsed matched continued) (parseEach parse optional elements ⟨v, line, s⟩)
      (parseEach parse optional elements ⟨v, line, t⟩) := by
  induction elements generalizing v line s t with
  | nil => exact related_gives _ _ h
  | cons e elements ih =>
    rw [parseEach, parseEach]
    refine related_bind (hparts e List.mem_cons_self _ _ _ _ _ h) fun v line s t h => ?_
    refine .ite (fun _ => related_gives _ _ h) fun _ => ?_
    exact ih (fun e he => hparts e (List.mem_cons_of_mem _ he)) _ _ h

lemma parseSequence_alike (lstart : Cursor) (optional : Bool) (hparts : ∀ e ∈ elements, Respects parse matched e)
    (h : Alike matched continued s t) :
    Related (AlikeParsed matched continued) (parseSequence parse lstart elements optional s)
      (parseSequence parse lstart elements optional t) := by
  refine related_bind (parseEach_alike optional hparts _ _ h) fun v line s t h => ?_
  refine .ite (fun _ => related_gives _ _ h) fun _ => ?_
  dsimp only
  split
  · exact related_gives _ _ h
  · exact .undefined

lemma parseOr_alike (line : Option Cursor) (optional : Bool) (hparts : ∀ e ∈ elements, Respects parse matched e)
    (ltry : Option Cursor) (h : Alike matched continued s t) :
    Related (AlikeParsed matched continued) (parseOr parse line optional elements ltry s)
      (parseOr parse line optional elements ltry t) := by
  induction elements generalizing ltry s t with
  | nil => exact related_gives _ _ h
  | cons e elements ih =>
    rw [parseOr, parseOr]
    refine related_bind (hparts e List.mem_cons_self _ _ _ _ _ h) fun v ltry s t h => ?_
    refine .ite (fun _ => ?_) fun _ => related_gives _ _ h
    exact ih (fun e he => hparts e (List.mem_cons_of_mem _ he)) _ h

lemma parseList_alike {e separator : YCPValue} (he : Respects parse matched e)
    (hseparator : Respects parse matched separator) (n : ℕ) (line : Option Cursor) (optional : Bool)
    (values : List YCPValue) (h : Alike matched continued s t) :
    Related (AlikeParsed matched continued) (parseList parse e separator n line optional values s)
      (parseList parse e separator n line optional values t) := by
  induction n generalizing line optional values s t with
  | zero => exact .pending
  | succ n ih =>
    rw [parseList, parseList]
    refine related_bind (he _ _ _ _ _ h) fun v line s t h => ?_
    refine .ite (fun _ => related_gives _ _ h) fun _ => ?_
    refine related_bind (hseparator _ _ _ _ _ h) fun v line s t h => ?_
    exact .ite (fun _ => related_gives _ _ h) fun _ => ih _ _ _ h

lemma parseTuple_alike (hparts : ∀ e ∈ elements, Respects parse matched e) (n : ℕ) (line : Option Cursor)
    {rest : List YCPValue} (hrest : rest ⊆ elements) (optional : Bool) (entries : List (YCPValue × YCPValue))
    (h : Alike matched true s t) :
    Related (AlikeParsed matched true) (parseTuple parse elements n line rest optional entries s)
      (parseTuple parse elements n line rest optional entries t) := by
  induction n generalizing line rest optional entries s t with
  | zero =>
    cases rest with
    | nil => exact related_gives _ _ h
    | cons _ _ => exact .pending
  | succ n ih =>
    cases rest with
    | nil => exact related_gives _ _ h
    | cons e rest =>
      rw [parseTuple, parseTuple]
      refine related_bind (hparts e (hrest List.mem_cons_self) _ _ _ _ _ h) fun v line s t h => ?_
      refine .ite (fun _ => related_gives _ _ h) fun _ => ?_
      obtain ⟨hentries, hstate⟩ := h.takeEntry entries
      dsimp only
      rw [hentries, hstate.tupleContinue rfl]
      refine .ite (fun _ => ?_) fun _ => ?_
      · exact ih line (List.Subset.refl _) true _ (hstate.withContinue false)
      · exact ih line (List.subset_of_cons_subset hrest) optional _ hstate

end

/-! ### Syntaxes that respect what is alike -/

/-- The parts that are parsed before the match of this construct is known. -/
def Construct.outerParts : Construct → List YCPValue
  | .choice elements => elements.flatMap fun element => ((alternative element).map fun a => [a.1]).getD []
  | construct => construct.parts

/-- The parts at any depth that are not in the action of a `Choice`. -/
inductive Outside (d : Description) : YCPValue → YCPValue → Prop where
  | refl (syn : YCPValue) : Outside d syn syn
  | part {inTuple : Bool} {syn e sub : YCPValue} (part : e ∈ (d.construct inTuple syn).outerParts)
      (outside : Outside d e sub) : Outside d syn sub

/-- `Match ()` stands in actions of a `Choice` only. -/
def MatchesInActions (d : Description) (syn : YCPValue) : Prop :=
  ∀ sub inTuple, Outside d syn sub → d.construct inTuple sub ≠ .current

lemma MatchesInActions.part {d : Description} {syn e : YCPValue} {inTuple : Bool} (h : MatchesInActions d syn)
    (he : e ∈ (d.construct inTuple syn).outerParts) : MatchesInActions d e := by
  intro sub b hsub
  exact h sub b (.part he hsub)

section

variable {d : Description} {alldata : List Text} {parse : Parser} {matched continued : Bool} {s t : ParserState}

lemma parseConstruct_alike (htrue : ∀ e, Respects parse true e) (n : ℕ) (line : Cursor) (optional : Bool)
    {construct : Construct} (hcurrent : matched = false → construct ≠ .current)
    (hparts : ∀ e ∈ construct.outerParts, Respects parse matched e) (h : Alike matched continued s t) :
    Related (AlikeParsed matched continued) (d.parseConstruct alldata parse n line optional s construct)
      (d.parseConstruct alldata parse n line optional t construct) := by
  have hone : ∀ e, construct.outerParts = [e] → Respects parse matched e := by
    intro e he
    refine hparts e ?_
    rw [he]
    exact List.mem_singleton_self e
  cases construct with
  | optional e =>
    exact related_bind (hone e rfl _ _ _ _ _ h) fun v line s t h => related_gives _ _ h
  | continues e =>
    refine related_bind (hone e rfl _ _ _ _ _ h) fun v line s t h => ?_
    refine related_gives _ _ ?_
    dsimp only
    split
    · exact h
    · exact (h.withContinue true).continuesAny
  | choice elements =>
    refine parseChoice_alike htrue _ _ (fun element helement a ha => ?_) h
    refine hparts a.1 (List.mem_flatMap.mpr ⟨element, helement, ?_⟩)
    rw [ha]
    exact List.mem_singleton_self _
  | sequence elements => exact parseSequence_alike _ _ hparts h
  | list e separator =>
    have he : Respects parse matched e := hparts e List.mem_cons_self
    have hseparator : Respects parse matched separator := hparts separator (List.mem_cons_of_mem _ List.mem_cons_self)
    exact parseList_alike he hseparator n _ optional [] h
  | tuple elements =>
    have hstart : Alike matched true { s with tuples := ([], null) :: s.tuples, tupleContinue := false }
        { t with tuples := ([], null) :: t.tuples, tupleContinue := false } :=
      ⟨h.nextLine, h.got_anything, by rw [h.tuples], h.currentMatch, fun _ => rfl⟩
    refine related_bind (parseTuple_alike hparts n _ (List.Subset.refl _) optional [] hstart) fun v line s t h => ?_
    exact related_gives _ _ ⟨h.nextLine, h.got_anything, by rw [h.tuples], h.currentMatch, fun _ => h.tupleContinue rfl⟩
  | var elements =>
    exact related_bind (parseEach_alike optional hparts _ _ h) fun v line s t h => related_gives _ _ h
  | name e =>
    refine related_bind (hone e rfl _ _ _ _ _ h) fun v line s t h => ?_
    refine related_gives _ _ ?_
    dsimp only
    split
    · exact h
    · exact h.setName _
  | value e =>
    refine related_bind (hone e rfl _ _ _ _ _ h) fun v line s t h => ?_
    refine related_gives _ _ ?_
    dsimp only
    split
    · exact h
    · exact h.setValue _
  | fillup =>
    refine related_bind (fillupLoop_alike d alldata n [] _ h) fun v line s t h => ?_
    exact related_gives _ _ ((h.setName _).setValue _)
  | skip => exact related_gives _ _ h
  | current =>
    cases matched with
    | true =>
      rw [Description.parseConstruct, Description.parseConstruct, h.currentMatch rfl]
      exact related_gives _ _ h
    | false => exact absurd rfl (hcurrent rfl)
  | or elements => exact parseOr_alike _ _ hparts _ h
  | basic p => exact related_gives _ _ h
  | named name e =>
    refine related_bind (hone e rfl _ _ _ _ _ (h.setName name)) fun v line s t h => ?_
    exact related_gives _ _ (h.setValue _)
  | unknown => exact related_gives _ _ h
  | bad => exact related_gives _ _ h
  | undefined => exact .undefined

/-- `parseData` does the same from states that are alike, if the syntax does not ask for a match that may be
another one. -/
theorem parseData_alike (n : ℕ) (matched : Bool) (syn : YCPValue)
    (hmatch : matched = false → MatchesInActions d syn) : Respects (d.parseData alldata n) matched syn := by
  induction n generalizing matched syn with
  | zero =>
    intro continued line optional s t h
    exact .pending
  | succ n ih =>
    intro continued line optional s t h
    obtain ⟨hline, hstate⟩ := nextText_alike d alldata line h
    rw [Description.parseData, Description.parseData]
    generalize d.nextText alldata line s = next at hline hstate ⊢
    generalize d.nextText alldata line t = next' at hline hstate ⊢
    obtain ⟨line', s'⟩ := next
    obtain ⟨line'', t'⟩ := next'
    dsimp only at hline hstate
    subst hline
    cases line'' with
    | none => exact related_gives _ _ hstate
    | some c =>
      dsimp only
      rw [hstate.tuples]
      refine parseConstruct_alike (fun e => ih true e fun hfalse => by cases hfalse) n c optional ?_ ?_ hstate
      · intro hfalse
        exact hmatch hfalse syn _ (.refl syn)
      · intro e he
        exact ih matched e fun hfalse => (hmatch hfalse).part he

end

end YastCore.AnyAgent
