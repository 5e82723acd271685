import YastCore.Resolver.Cache

/-!
# The buffer of a line

`fillCache` reads each line into the array `lbuf` and writes the ends of its strings into it. The array is
the bytes of the memory from its address on; what a line does not overwrite is left from before.
-/

namespace YastCore.Resolver

open Lines YCPValue

/-! ### The buffer -/

/-- `fgets` stores the line and a NUL. -/
def fgets (mem piece : Text) : Text := piece ++ 0 :: mem.drop (piece.length + 1)

/-- The first word from `vptr` on, with a NUL behind it. -/
def wordAt (mem : Text) : Option (Text × Text) :=
  let blanks := mem.takeWhile isspace
  let word := (mem.dropWhile isspace).takeWhile fun c => c != 0 && !isspace c
  match mem.drop (blanks.length + word.length) with
  | [] => none
  | _ :: rest => some (word, blanks ++ word ++ 0 :: rest)

/-- The loop over the words of a list, where `word` is already read of the first of them. It writes a NUL
behind each word and goes on behind that, whether it stands for a whitespace or for the end of the line. -/
def wordsAt (word : Text) : Text → Option (List Text × Text)
  | [] => none
  | c :: mem =>
    if c = 0 ∨ isspace c then
      if word = [] then
        if c = 0 then some ([], c :: mem) else (wordsAt [] mem).map fun r => (r.1, c :: r.2)
      else (wordsAt [] mem).map fun r => (word :: r.1, 0 :: r.2)
    else (wordsAt (word ++ [c]) mem).map fun r => (r.1, c :: r.2)

/-- The value of a line whose key ends before `mem`. -/
def readValueAt (cache : List (YCPValue × YCPValue)) (key mem : Text) : Option (YCPValue × Text) :=
  if isListKey key then (wordsAt [] mem).map fun r => (list (r.1.map string), r.2)
  else if key = nameserverKey then
    let value :=
      match mapValue cache (string key) with
      | list l => l
      | _ => []
    (wordAt mem).map fun r => (list (value ++ [string r.1]), r.2)
  else if key = domainKey then (wordAt mem).map fun r => (string r.1, r.2)
  else some (null, mem)

/-- A line without its comment. -/
def fillEntryAt (st : Filling) (mem : Text) : Option (Filling × Text) :=
  match nextWhitespace (cut mem) with
  | [] => some (st, mem)
  | c :: _ =>
    if c = newline then some (st, mem)
    else
      let key := firstWord (cut mem)
      (readValueAt st.cache key (mem.drop (key.length + 1))).map fun r =>
        ({ st with cache := mapInsert (string key) r.1 st.cache }, key ++ 0 :: r.2)

/-- The lines of the header, after which the loop goes on with the next line. -/
def infoLine (lbuf : Text) : Bool :=
  (ascii "### BEGIN INFO").isPrefixOf lbuf || (ascii "### END INFO").isPrefixOf lbuf || (findKey lbuf).isSome

/-- What is kept of another line with a comment. -/
def Filling.keepInfo (st : Filling) (lbuf : Text) : Filling :=
  { st with info_buf := if st.processing_info then st.info_buf ++ lbuf else st.info_buf }

/-- One turn of the loop of `fillCache` on the buffer that `fgets` has filled. -/
def fillLineAt (st : Filling) (mem : Text) : Option (Filling × Text) :=
  let lbuf := cut mem
  if 35 ∈ lbuf then
    if infoLine lbuf then (fillLine st lbuf).map fun st => (st, mem)
    else fillEntryAt (st.keepInfo lbuf) (mem.set (lbuf.takeWhile (· != 35)).length 0)
  else fillEntryAt st mem

/-- The loop of `fillCache`. -/
def fillLinesAt (st : Filling) (mem : Text) : List Text → Option Filling
  | [] => some st
  | piece :: rest => (fillLineAt st (fgets mem piece)).bind fun r => fillLinesAt r.1 r.2 rest

/-- What each turn of the loop begins with. -/
def fillRun (st : Filling) (mem : Text) : List Text → List (Filling × Text × Text)
  | [] => []
  | piece :: rest =>
    (st, mem, piece) ::
      match fillLineAt st (fgets mem piece) with
      | some (st', mem') => fillRun st' mem' rest
      | none => []

/-! ### Lines within themselves -/

/-- A line up to its comment. -/
def entryText (piece : Text) : Text := (cut piece).takeWhile (· != 35)

/-- A line whose value is a list of words. -/
def listLine (text : Text) : Bool :=
  isListKey (firstWord text) && (nextWhitespace text).head?.any (· != newline)

/-- A line is parsed within itself: the bytes behind its NUL are not read, what comes out does not depend
on them, and the words of a list are the words of the line. -/
structure LineWithin (st : Filling) (mem piece : Text) : Prop where
  own : (fillLineAt st (piece ++ [0])).isSome
  same : (fillLineAt st (fgets mem piece)).map (·.1) = (fillLineAt st (piece ++ [0])).map (·.1)
  words : listLine (entryText piece) = true →
    (fillLineAt st (fgets mem piece)).map (·.1.cache) =
      some (mapInsert (string (firstWord (entryText piece)))
        (list ((spaceWords (nextWhitespace (entryText piece))).map string)) st.cache)

/-- A list ends in whitespace, or there is nothing but whitespace between the end of its text and the next
NUL of the line. -/
def OwnWords (piece : Text) : Prop :=
  listLine (entryText piece) = true → lastOpen (entryText piece) = true →
    ∃ blanks rest, (∀ c ∈ blanks, isspace c = true) ∧
      (piece ++ [0]).drop ((entryText piece).length + 1) = blanks ++ 0 :: rest

/-! ### Words in the buffer -/

/-- What stands behind the NUL of a line is read as soon as its last word is open. -/
lemma wordsAt_append (word text tail : Text) (hword : ∀ c ∈ word, isspace c = false) (hzero : 0 ∉ text) :
    (wordsAt word (text ++ 0 :: tail)).map (·.1) =
      if lastOpen (word ++ text) then
        ((wordsAt [] tail).map (·.1)).map (spaceWords (word ++ text) ++ ·)
      else some (spaceWords (word ++ text)) := by
  induction text generalizing word with
  | nil =>
    rw [List.nil_append, List.append_nil, wordsAt, if_pos (Or.inl rfl)]
    by_cases hne : word = []
    · rw [if_pos hne, if_pos rfl, hne]
      rfl
    · rw [if_neg hne, lastOpen_word hword hne, if_pos rfl, spaceWords_word hword, Option.map_map, Option.map_map]
      simp [hne, Function.comp_def]
  | cons c text ih =>
    have hc0 : c ≠ 0 := fun heq => hzero (heq ▸ List.mem_cons_self)
    have hrest : 0 ∉ text := fun hmem => hzero (List.mem_cons_of_mem c hmem)
    rw [List.cons_append, wordsAt]
    by_cases hc : isspace c = true
    · have hnext := ih [] (List.forall_mem_nil _) hrest
      rw [List.nil_append] at hnext
      rw [if_pos (Or.inr hc), if_neg hc0, lastOpen_append_cons word text hc, spaceWords_append_cons text hword hc]
      by_cases hne : word = []
      · rw [if_pos hne, Option.map_map, hne]
        exact hnext
      · have hmap : ((wordsAt [] (text ++ 0 :: tail)).map fun r => (word :: r.1, (0 : UInt8) :: r.2)).map (·.1) =
            ((wordsAt [] (text ++ 0 :: tail)).map (·.1)).map (word :: ·) := by
          rw [Option.map_map, Option.map_map]
          rfl
        rw [if_neg hne, hmap, hnext, apply_ite (Option.map (word :: ·)), Option.map_map]
        simp [hne, Function.comp_def]
    · have hc : isspace c = false := by simpa using hc
      have hlonger : ∀ d ∈ word ++ [c], isspace d = false :=
        List.forall_mem_append.mpr ⟨hword, List.forall_mem_singleton.mpr hc⟩
      have hnot : ¬ (c = 0 ∨ isspace c = true) := by
        rintro (heq | hspace)
        · exact hc0 heq
        · exact Bool.false_ne_true (hc.symm.trans hspace)
      have hnext := ih _ hlonger hrest
      rw [List.append_assoc, List.singleton_append] at hnext
      rw [if_neg hnot, Option.map_map, ← hnext]
      rfl

/-- More memory behind the end of the reading changes nothing. -/
lemma wordsAt_stale {word mem : Text} {r : List Text × Text} (stale : Text) (h : wordsAt word mem = some r) :
    wordsAt word (mem ++ stale) = some (r.1, r.2 ++ stale) := by
  induction mem generalizing word r with
  | nil => exact absurd h (by simp [wordsAt])
  | cons c mem ih =>
    rw [wordsAt] at h
    rw [List.cons_append, wordsAt]
    split_ifs at h ⊢ with hend hword hzero
    · obtain rfl := Option.some.inj h
      rfl
    all_goals
      obtain ⟨r, hr, rfl⟩ := Option.map_eq_some_iff.mp h
      rw [ih hr]
      rfl

lemma wordsAt_ne_nil {word mem : Text} {r : List Text × Text} (hword : word ≠ [])
    (h : wordsAt word mem = some r) : r.1 ≠ [] := by
  induction mem generalizing word r with
  | nil => exact absurd h (by simp [wordsAt])
  | cons c mem ih =>
    rw [wordsAt, if_neg hword] at h
    split_ifs at h with hend
    · obtain ⟨r, -, rfl⟩ := Option.map_eq_some_iff.mp h
      exact List.cons_ne_nil word r.1
    · obtain ⟨r, hr, rfl⟩ := Option.map_eq_some_iff.mp h
      have hlonger : word ++ [c] ≠ [] := by simp
      have hrest := ih hlonger hr
      exact hrest

/-- There are no words where whitespace leads to a NUL. -/
lemma wordsAt_eq_nil_iff (mem : Text) :
    (wordsAt [] mem).map (·.1) = some [] ↔
      ∃ blanks rest, (∀ c ∈ blanks, isspace c = true) ∧ mem = blanks ++ 0 :: rest := by
  induction mem with
  | nil => simp [wordsAt]
  | cons c mem ih =>
    rw [wordsAt]
    by_cases hzero : c = 0
    · rw [if_pos (Or.inl hzero), if_pos rfl, if_pos hzero]
      exact iff_of_true rfl ⟨[], mem, by simp, by rw [hzero]; rfl⟩
    by_cases hc : isspace c = true
    · rw [if_pos (Or.inr hc), if_pos rfl, if_neg hzero, Option.map_map]
      refine Iff.trans ih ⟨?_, ?_⟩
      · rintro ⟨blanks, rest, hblanks, rfl⟩
        exact ⟨c :: blanks, rest, List.forall_mem_cons.mpr ⟨hc, hblanks⟩, rfl⟩
      · rintro ⟨_ | ⟨b, blanks⟩, rest, hblanks, hmem⟩
        · exact absurd (List.cons.inj hmem).1 hzero
        · exact ⟨blanks, rest, (List.forall_mem_cons.mp hblanks).2, (List.cons.inj hmem).2⟩
    · rw [if_neg (not_or.mpr ⟨hzero, hc⟩), Option.map_map]
      refine iff_of_false ?_ ?_
      · intro h
        obtain ⟨r, hr, hnil⟩ := Option.map_eq_some_iff.mp h
        exact wordsAt_ne_nil (List.cons_ne_nil c []) hr hnil
      · rintro ⟨_ | ⟨b, blanks⟩, rest, hblanks, hmem⟩
        · exact hzero (List.cons.inj hmem).1
        · rw [(List.cons.inj hmem).1] at hc
          exact hc (List.forall_mem_cons.mp hblanks).1

lemma firstWord_zero {text : Text} (tail : Text) (hzero : 0 ∉ text) :
    ((text ++ 0 :: tail).takeWhile fun c => c != 0 && !isspace c) = firstWord text := by
  induction text with
  | nil => rfl
  | cons c text ih =>
    have hc : (c != 0) = true := bne_iff_ne.mpr fun heq => hzero (heq ▸ List.mem_cons_self)
    rw [List.cons_append, List.takeWhile_cons, firstWord, List.takeWhile_cons, hc, Bool.true_and,
      ih fun hmem => hzero (List.mem_cons_of_mem c hmem)]
    rfl

lemma eatWhitespaces_zero (text tail : Text) :
    (text ++ 0 :: tail).dropWhile isspace = eatWhitespaces text ++ 0 :: tail := by
  induction text with
  | nil => rfl
  | cons c text ih =>
    rw [List.cons_append, List.dropWhile_cons, eatWhitespaces, List.dropWhile_cons]
    split
    · exact ih
    · rfl

/-- The only word of a line is the one of the line. -/
lemma wordAt_append {text : Text} (tail : Text) (hzero : 0 ∉ text) :
    (wordAt (text ++ 0 :: tail)).map (·.1) = some (firstWord (eatWhitespaces text)) := by
  have hrest : 0 ∉ eatWhitespaces text := fun hmem => hzero ((List.dropWhile_sublist isspace).subset hmem)
  have hword := firstWord_zero tail hrest
  have hlength : ((text ++ 0 :: tail).takeWhile isspace).length + (firstWord (eatWhitespaces text)).length <
      (text ++ 0 :: tail).length := by
    have hsplit := congrArg List.length (List.takeWhile_append_dropWhile (p := isspace) (l := text ++ 0 :: tail))
    rw [eatWhitespaces_zero, List.length_append, List.length_append, List.length_cons] at hsplit
    have hprefix : (firstWord (eatWhitespaces text)).length ≤ (eatWhitespaces text).length :=
      (List.takeWhile_prefix _).length_le
    omega
  rw [wordAt, eatWhitespaces_zero, hword]
  split
  · next hnil =>
    rw [List.drop_eq_nil_iff] at hnil
    omega
  · rfl

/-! ### One line -/

lemma cut_append_zero_cons (text tail : Text) : cut (text ++ 0 :: tail) = cut text := by
  induction text with
  | nil => rfl
  | cons c text ih =>
    rw [cut, cut, List.cons_append, List.takeWhile_cons, List.takeWhile_cons]
    split
    · exact congrArg _ ih
    · rfl

/-- The words that the loop finds for a line and what stands behind its NUL. -/
def listWords (text tail : Text) : Option (List Text) :=
  if lastOpen text then ((wordsAt [] tail).map (·.1)).map (spaceWords (nextWhitespace text) ++ ·)
  else some (spaceWords (nextWhitespace text))

lemma listWords_stale {text tail : Text} {ws : List Text} (stale : Text) (h : listWords text tail = some ws) :
    listWords text (tail ++ stale) = some ws := by
  rw [listWords] at h ⊢
  split_ifs at h ⊢
  · rw [Option.map_map] at h ⊢
    obtain ⟨r, hr, rfl⟩ := Option.map_eq_some_iff.mp h
    rw [wordsAt_stale stale hr]
    rfl
  · exact h

/-- The words are those of the text exactly when no others stand between its end and the next NUL. -/
lemma listWords_eq_iff (text tail : Text) :
    listWords text tail = some (spaceWords (nextWhitespace text)) ↔
      (lastOpen text = true → (wordsAt [] tail).map (·.1) = some []) := by
  rw [listWords]
  by_cases hopen : lastOpen text = true
  · rw [if_pos hopen]
    refine ⟨fun h _ => ?_, fun h => ?_⟩
    · obtain ⟨ws, hws, hsame⟩ := Option.map_eq_some_iff.mp h
      rw [hws, List.append_right_eq_self.mp hsame]
    · rw [h hopen, Option.map_some, List.append_nil]
  · rw [if_neg hopen]
    exact iff_of_true rfl fun h => absurd h hopen

lemma exists_key {text v : Text} {c : UInt8} (h : nextWhitespace text = c :: v) :
    text = firstWord text ++ c :: v ∧ isspace c = true := by
  refine ⟨?_, ?_⟩
  · rw [← h]
    exact List.takeWhile_append_dropWhile.symm
  · have hhead := List.head?_dropWhile_not (fun c => !isspace c) text
    rw [nextWhitespace] at h
    rw [h] at hhead
    simpa using hhead

/-- The parts of a line with a list. -/
lemma exists_list {text : Text} (hlist : listLine text = true) :
    ∃ c v, nextWhitespace text = c :: v ∧ c ≠ newline ∧ isListKey (firstWord text) = true ∧
      lastOpen text = lastOpen v ∧ spaceWords (nextWhitespace text) = spaceWords v := by
  obtain ⟨hkey, hvalue⟩ := Bool.and_eq_true_iff.mp hlist
  cases hnext : nextWhitespace text with
  | nil =>
    rw [hnext] at hvalue
    exact absurd hvalue (by simp)
  | cons c v =>
    obtain ⟨htext, hc⟩ := exists_key hnext
    rw [hnext] at hvalue
    refine ⟨c, v, rfl, by simpa using hvalue, hkey, ?_, spaceWords_cons v hc⟩
    rw [htext]
    exact lastOpen_append_cons _ v hc

lemma drop_length {text mem : Text} {x : UInt8} {rest : Text} (h : mem = text ++ x :: rest) :
    mem.drop (text.length + 1) = rest := by
  rw [h, ← List.drop_drop, List.drop_left]
  rfl

lemma drop_key {text v : Text} {c : UInt8} (tail : Text) (htext : text = firstWord text ++ c :: v) :
    (text ++ 0 :: tail).drop ((firstWord text).length + 1) = v ++ 0 :: tail := by
  have hmem : text ++ 0 :: tail = firstWord text ++ c :: (v ++ 0 :: tail) :=
    (congrArg (· ++ 0 :: tail) htext).trans (by simp)
  exact drop_length hmem

lemma fillEntryAt_list (st : Filling) {text : Text} (tail : Text) (hzero : 0 ∉ text)
    (hlist : listLine text = true) :
    (fillEntryAt st (text ++ 0 :: tail)).map (·.1) = (listWords text tail).map fun ws =>
      { st with cache := mapInsert (string (firstWord text)) (list (ws.map string)) st.cache } := by
  obtain ⟨c, v, hnext, hnot, hkey, hopen, hwords⟩ := exists_list hlist
  obtain ⟨htext, -⟩ := exists_key hnext
  have hv : 0 ∉ v := by
    rw [htext] at hzero
    exact fun hmem => hzero (List.mem_append_right _ (List.mem_cons_of_mem c hmem))
  have hdrop := drop_key tail htext
  have hread := wordsAt_append [] v tail (List.forall_mem_nil _) hv
  rw [List.nil_append, ← hopen, ← hwords] at hread
  rw [fillEntryAt, cut_append_zero_cons, cut_eq_self.mpr hzero, hnext]
  dsimp only
  rw [if_neg hnot, hdrop, readValueAt, if_pos hkey, listWords, ← hread, Option.map_map, Option.map_map,
    Option.map_map]
  rfl

/-- A line that is not a list is read from the line alone. -/
lemma fillEntryAt_other (st : Filling) {text : Text} (tail : Text) (hzero : 0 ∉ text)
    (hlist : listLine text = false) :
    (fillEntryAt st (text ++ 0 :: tail)).map (·.1) = fillEntry st text ∧ (fillEntry st text).isSome := by
  rw [fillEntryAt, fillEntry, cut_append_zero_cons, cut_eq_self.mpr hzero]
  cases hnext : nextWhitespace text with
  | nil => exact ⟨rfl, rfl⟩
  | cons c v =>
    dsimp only
    by_cases hnewline : c = newline
    · rw [if_pos hnewline, if_pos hnewline]
      exact ⟨rfl, rfl⟩
    have hkey : isListKey (firstWord text) = false := by
      rw [listLine, hnext, List.head?_cons, Option.any_some, bne_iff_ne.mpr hnewline, Bool.and_true] at hlist
      exact hlist
    obtain ⟨htext, -⟩ := exists_key hnext
    have hv : 0 ∉ v := by
      rw [htext] at hzero
      exact fun hmem => hzero (List.mem_append_right _ (List.mem_cons_of_mem c hmem))
    have hdrop := drop_key tail htext
    obtain ⟨r, hr, hword⟩ := Option.map_eq_some_iff.mp (wordAt_append tail hv)
    rw [if_neg hnewline, if_neg hnewline, hdrop, readValueAt, readValue, hkey, if_neg Bool.false_ne_true,
      if_neg Bool.false_ne_true, hr, ← hword]
    split_ifs
    · exact ⟨rfl, rfl⟩
    · exact ⟨rfl, rfl⟩
    · exact ⟨rfl, rfl⟩

lemma infoLine_head {lbuf : Text} (h : infoLine lbuf = true) : lbuf.head? = some 35 := by
  have hprefix {tag : Text} (htag : tag.head? = some 35) (hlbuf : tag.isPrefixOf lbuf = true) :
      lbuf.head? = some 35 := by
    obtain ⟨rest, rfl⟩ := List.isPrefixOf_iff_prefix.mp hlbuf
    rw [List.head?_append, htag]
    rfl
  rcases Bool.or_eq_true_iff.mp h with h | h
  · rcases Bool.or_eq_true_iff.mp h with h | h
    · exact hprefix rfl h
    · exact hprefix rfl h
  · rw [findKey, Option.isSome_map] at h
    obtain ⟨header, hmem, htag⟩ := List.find?_isSome.mp h
    have hheaders : (headers.all fun header => header.2.head? == some 35) = true := rfl
    exact hprefix (by simpa using List.all_eq_true.mp hheaders header hmem) htag

lemma fillLine_info (st : Filling) {lbuf : Text} (hmem : 35 ∈ lbuf) (hinfo : infoLine lbuf = true) :
    (fillLine st lbuf).isSome := by
  rw [fillLine, if_pos hmem]
  by_cases hbegin : (ascii "### BEGIN INFO").isPrefixOf lbuf = true
  · rw [if_pos hbegin]
    rfl
  by_cases hend : (ascii "### END INFO").isPrefixOf lbuf = true
  · rw [if_neg hbegin, if_pos hend]
    rfl
  rw [infoLine, Bool.eq_false_iff.mpr hbegin, Bool.eq_false_iff.mpr hend, Bool.false_or, Bool.false_or] at hinfo
  obtain ⟨key, hkey⟩ := Option.isSome_iff_exists.mp hinfo
  rw [if_neg hbegin, if_neg hend, hkey]
  rfl

lemma fillLine_comment (st : Filling) {lbuf : Text} (hmem : 35 ∈ lbuf) (hinfo : infoLine lbuf = false) :
    fillLine st lbuf = fillEntry (st.keepInfo lbuf) (lbuf.takeWhile (· != 35)) := by
  obtain ⟨htags, hkey⟩ := Bool.or_eq_false_iff.mp hinfo
  obtain ⟨hbegin, hend⟩ := Bool.or_eq_false_iff.mp htags
  rw [fillLine, if_pos hmem, hbegin, hend, if_neg Bool.false_ne_true, if_neg Bool.false_ne_true,
    Option.not_isSome_iff_eq_none.mp (Bool.eq_false_iff.mp hkey)]
  rfl

lemma exists_rest (text tail : Text) : ∃ rest, text ++ 0 :: tail = cut text ++ 0 :: rest := by
  induction text with
  | nil => exact ⟨tail, rfl⟩
  | cons c text ih =>
    by_cases hc : c = 0
    · subst hc
      exact ⟨text ++ 0 :: tail, rfl⟩
    · obtain ⟨rest, hrest⟩ := ih
      refine ⟨rest, ?_⟩
      rw [cut, List.takeWhile_cons, if_pos (bne_iff_ne.mpr hc), List.cons_append, List.cons_append, hrest]
      rfl

/-- The end that is written behind the text of a line. -/
lemma set_length {text mem : Text} {x : UInt8} {rest : Text} (h : mem = text ++ x :: rest) :
    mem.set text.length 0 = text ++ 0 :: mem.drop (text.length + 1) := by
  rw [drop_length h, h, List.set_append_right _ _ (le_refl _), Nat.sub_self]
  rfl

/-- A line of the file that is not one of the header is read as a line without comment. -/
lemma fillLineAt_entry (st : Filling) {piece : Text} (hinfo : 35 ∈ cut piece → infoLine (cut piece) = false) :
    ∃ st' : Filling, st'.cache = st.cache ∧ fillLine st (cut piece) = fillEntry st' (entryText piece) ∧
      ∀ stale, fillLineAt st (piece ++ 0 :: stale) = fillEntryAt st'
        (entryText piece ++ 0 :: (piece ++ 0 :: stale).drop ((entryText piece).length + 1)) := by
  by_cases hmem : 35 ∈ cut piece
  · refine ⟨st.keepInfo (cut piece), rfl, fillLine_comment st hmem (hinfo hmem), fun stale => ?_⟩
    obtain ⟨rest, hrest⟩ := exists_rest piece stale
    have htext : cut piece = entryText piece ++ (cut piece).dropWhile (· != 35) :=
      List.takeWhile_append_dropWhile.symm
    obtain ⟨x, behind, hbehind⟩ : ∃ x behind, piece ++ 0 :: stale = entryText piece ++ x :: behind := by
      rw [htext, List.append_assoc] at hrest
      cases hdrop : (cut piece).dropWhile (· != 35) with
      | nil => exact ⟨0, rest, by rw [hrest, hdrop]; rfl⟩
      | cons x more => exact ⟨x, more ++ 0 :: rest, by rw [hrest, hdrop]; rfl⟩
    rw [fillLineAt, cut_append_zero_cons, if_pos hmem, hinfo hmem, if_neg Bool.false_ne_true, ← set_length hbehind]
    rfl
  · have htext : entryText piece = cut piece := by
      rw [entryText, List.takeWhile_eq_self_iff]
      exact fun c hc => bne_iff_ne.mpr fun heq => hmem (heq ▸ hc)
    refine ⟨st, rfl, ?_, fun stale => ?_⟩
    · rw [fillLine, if_neg hmem, htext]
    · obtain ⟨rest, hrest⟩ := exists_rest piece stale
      rw [fillLineAt, cut_append_zero_cons, if_neg hmem, htext, drop_length hrest, ← hrest]

lemma zero_notMem_entryText (piece : Text) : 0 ∉ entryText piece :=
  fun hmem => zero_not_mem_cut piece ((List.takeWhile_prefix _).subset hmem)

lemma entryText_info {piece : Text} (hinfo : infoLine (cut piece) = true) : entryText piece = [] := by
  have hhead := infoLine_head hinfo
  rw [entryText]
  cases hcut : cut piece with
  | nil => rfl
  | cons c text =>
    rw [hcut, List.head?_cons, Option.some.injEq] at hhead
    rw [hhead]
    rfl

/-- What comes of a line does not depend on what stands behind its NUL, unless it is a list. -/
lemma fillLineAt_other (st : Filling) {piece : Text} (hlist : listLine (entryText piece) = false) :
    (fillLine st (cut piece)).isSome ∧
      ∀ stale, (fillLineAt st (piece ++ 0 :: stale)).map (·.1) = fillLine st (cut piece) := by
  by_cases hinfo : 35 ∈ cut piece ∧ infoLine (cut piece) = true
  · refine ⟨fillLine_info st hinfo.1 hinfo.2, fun stale => ?_⟩
    rw [fillLineAt, cut_append_zero_cons, if_pos hinfo.1, if_pos hinfo.2, Option.map_map]
    exact Option.map_id'
  · have hentry : 35 ∈ cut piece → infoLine (cut piece) = false := by simpa using hinfo
    obtain ⟨st', -, hline, hat⟩ := fillLineAt_entry st hentry
    have hzero := zero_notMem_entryText piece
    refine ⟨?_, fun stale => ?_⟩
    · rw [hline]
      exact (fillEntryAt_other st' [] hzero hlist).2
    · rw [hline, hat]
      exact (fillEntryAt_other st' _ hzero hlist).1

lemma listLine_not_info {piece : Text} (hlist : listLine (entryText piece) = true) :
    35 ∈ cut piece → infoLine (cut piece) = false := by
  intro _
  by_contra hinfo
  rw [entryText_info (by simpa using hinfo)] at hlist
  exact absurd hlist (by decide)

lemma fillLineAt_list (st : Filling) {piece : Text} (hlist : listLine (entryText piece) = true) :
    ∃ st' : Filling, ∀ stale, (fillLineAt st (piece ++ 0 :: stale)).map (·.1) =
      (listWords (entryText piece) ((piece ++ 0 :: stale).drop ((entryText piece).length + 1))).map fun ws =>
        { st' with
          cache := mapInsert (string (firstWord (entryText piece))) (list (ws.map string)) st.cache } := by
  obtain ⟨st', hcache, -, hat⟩ := fillLineAt_entry st (listLine_not_info hlist)
  refine ⟨st', fun stale => ?_⟩
  rw [hat, fillEntryAt_list st' _ (zero_notMem_entryText piece) hlist, hcache]

lemma drop_stale (piece stale : Text) :
    (piece ++ 0 :: stale).drop ((entryText piece).length + 1) =
      (piece ++ [0]).drop ((entryText piece).length + 1) ++ stale := by
  have hlength : (entryText piece).length ≤ piece.length :=
    (List.takeWhile_prefix _).length_le.trans (cut_length_le piece)
  rw [← List.drop_append_of_le_length (by simpa using hlength), List.append_assoc]
  rfl

lemma map_cache (r : Option (Filling × Text)) : r.map (·.1.cache) = (r.map (·.1)).map Filling.cache := by
  rw [Option.map_map]
  rfl

lemma isSome_fillLineAt (st : Filling) (mem : Text) :
    ((fillLineAt st mem).map (·.1)).isSome = (fillLineAt st mem).isSome := Option.isSome_map

/-- The words of the line alone are those of its text. -/
lemma ownWords_iff {piece : Text} (hlist : listLine (entryText piece) = true) :
    OwnWords piece ↔ listWords (entryText piece) ((piece ++ [0]).drop ((entryText piece).length + 1)) =
      some (spaceWords (nextWhitespace (entryText piece))) := by
  rw [listWords_eq_iff, wordsAt_eq_nil_iff, OwnWords]
  exact forall_prop_of_true hlist

lemma lineWithin_list (st : Filling) (mem : Text) {piece : Text} (hlist : listLine (entryText piece) = true) :
    LineWithin st mem piece ↔ OwnWords piece := by
  obtain ⟨st', hat⟩ := fillLineAt_list st hlist
  have hown := hat []
  have hmem := hat (mem.drop (piece.length + 1))
  rw [drop_stale] at hmem
  rw [drop_stale, List.append_nil] at hown
  rw [ownWords_iff hlist]
  refine ⟨fun h => ?_, fun h => ?_⟩
  · have hsome := h.own
    rw [← isSome_fillLineAt, hown, Option.isSome_map] at hsome
    obtain ⟨ws, hws⟩ := Option.isSome_iff_exists.mp hsome
    have hcache := h.words hlist
    rw [map_cache, fgets, hmem, listWords_stale _ hws] at hcache
    have hlists := mapInsert_injective st.cache (Option.some.inj hcache)
    have hsame : ws = spaceWords (nextWhitespace (entryText piece)) :=
      List.map_injective_iff.mpr (fun s t heq => string.inj heq) (list.inj hlists)
    rw [hws, hsame]
  · have hstale := listWords_stale (mem.drop (piece.length + 1)) h
    rw [h] at hown
    rw [hstale] at hmem
    refine ⟨?_, hmem.trans hown.symm, fun _ => ?_⟩
    · rw [← isSome_fillLineAt, hown]
      rfl
    · rw [map_cache, fgets, hmem]
      rfl

/-- A line is parsed within itself exactly when the list on it ends before the line does. -/
theorem lineWithin_iff (st : Filling) (mem piece : Text) : LineWithin st mem piece ↔ OwnWords piece := by
  by_cases hlist : listLine (entryText piece) = true
  · exact lineWithin_list st mem hlist
  · have hlist : listLine (entryText piece) = false := by simpa using hlist
    obtain ⟨hsome, hat⟩ := fillLineAt_other st hlist
    refine iff_of_true ⟨?_, ?_, ?_⟩ ?_
    · rw [← isSome_fillLineAt, hat []]
      exact hsome
    · exact (hat _).trans (hat []).symm
    · rw [hlist]
      exact fun h => absurd h Bool.false_ne_true
    · intro h
      rw [hlist] at h
      exact absurd h Bool.false_ne_true

/-! ### The file -/

/-- Each line of the file is parsed within itself. -/
def LinesWithin (content mem : Text) : Prop :=
  ∀ e ∈ fillRun .start mem (pieces lineLength [] content), LineWithin e.1 e.2.1 e.2.2

lemma fillRun_within_iff (st : Filling) (mem : Text) (lines : List Text) :
    (∀ e ∈ fillRun st mem lines, LineWithin e.1 e.2.1 e.2.2) ↔ ∀ piece ∈ lines, OwnWords piece := by
  induction lines generalizing st mem with
  | nil => simp [fillRun]
  | cons piece lines ih =>
    rw [fillRun, List.forall_mem_cons, List.forall_mem_cons, lineWithin_iff]
    refine and_congr_right fun hown => ?_
    have hline := (lineWithin_iff st mem piece).mpr hown
    have hsome : (fillLineAt st (fgets mem piece)).isSome := by
      rw [← isSome_fillLineAt, hline.same, isSome_fillLineAt]
      exact hline.own
    obtain ⟨r, hr⟩ := Option.isSome_iff_exists.mp hsome
    rw [hr]
    exact ih r.1 r.2

/-- A file is parsed line by line exactly when each list in it ends before its line does. -/
theorem linesWithin_iff (content mem : Text) :
    LinesWithin content mem ↔ ∀ piece ∈ pieces lineLength [] content, OwnWords piece :=
  fillRun_within_iff .start mem _

/-- A last line without a newline. -/
theorem last_line_not_within : ¬∀ content mem, LinesWithin content mem := by
  intro h
  have hpieces : pieces lineLength [] (ascii "search a") = [ascii "search a"] := by decide
  have hline := h (ascii "search a") [] (.start, [], ascii "search a") (by
    rw [hpieces]
    exact List.mem_cons_self)
  exact absurd hline.own (by decide)

/-- The loop goes on in what is left of the line before. -/
example : ((fillLineAt .start (fgets [] (ascii "search foo bar\n"))).bind fun r =>
    fillLineAt .start (fgets r.2 (ascii "search a"))).map (·.1.cache) =
      some [(string searchKey, list [string (ascii "a"), string (ascii "o"), string (ascii "bar")])] := rfl

/-! ### Lines read as texts -/

/-- What is read of a line as a text is read of the buffer. -/
lemma fillEntryAt_of_fillEntry {st st' : Filling} {text : Text} (tail : Text) (hzero : 0 ∉ text)
    (h : fillEntry st text = some st') : (fillEntryAt st (text ++ 0 :: tail)).map (·.1) = some st' := by
  by_cases hlist : listLine text = true
  · obtain ⟨c, v, hnext, hnot, hkey, hopen, hwords⟩ := exists_list hlist
    rw [fillEntry, hnext] at h
    dsimp only at h
    rw [if_neg hnot, readValue, if_pos hkey, words_eatWhitespaces, words_eq [] v (List.forall_mem_nil _),
      List.nil_append, ← hopen, ← hwords] at h
    rw [fillEntryAt_list st tail hzero hlist, listWords]
    split_ifs at h ⊢
    · exact absurd h (by simp)
    · exact h
  · have hlist : listLine text = false := by simpa using hlist
    rw [(fillEntryAt_other st tail hzero hlist).1, h]

lemma fillLineAt_of_fillLine {st st' : Filling} {piece : Text} (h : fillLine st (cut piece) = some st')
    (stale : Text) : (fillLineAt st (piece ++ 0 :: stale)).map (·.1) = some st' := by
  by_cases hlist : listLine (entryText piece) = true
  · obtain ⟨st'', -, hline, hat⟩ := fillLineAt_entry st (listLine_not_info hlist)
    rw [hline] at h
    rw [hat]
    exact fillEntryAt_of_fillEntry _ (zero_notMem_entryText piece) h
  · have hlist : listLine (entryText piece) = false := by simpa using hlist
    rw [(fillLineAt_other st hlist).2, h]

/-- Where the loop over the lines as texts has a result, the loop over the buffer has it, whatever the
buffer holds before. -/
theorem fillLinesAt_of_fillLines {st st' : Filling} {lines : List Text} (h : fillLines st lines = some st')
    (mem : Text) : fillLinesAt st mem lines = some st' := by
  induction lines generalizing st mem with
  | nil => exact h
  | cons piece lines ih =>
    obtain ⟨st₁, hline, hrest⟩ := Option.bind_eq_some_iff.mp h
    obtain ⟨r, hr, rfl⟩ := Option.map_eq_some_iff.mp (fillLineAt_of_fillLine hline (mem.drop (piece.length + 1)))
    rw [fillLinesAt, fgets, hr]
    exact ih hrest r.2

end YastCore.Resolver
