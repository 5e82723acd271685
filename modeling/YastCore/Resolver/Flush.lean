import YastCore.Resolver.Cache

/-!
# What survives a flush

`flushCache` runs through the map and stops at the first entry it cannot write, and also at an empty
list of words. What it has written up to there is read back by `fillCache`.
-/

namespace YastCore.Resolver

open Lines YCPValue

/-! ### Reading a line -/

/-- A word that stays a word on a line. -/
def Clean (s : Text) : Prop := ∀ c ∈ s, isspace c = false ∧ c ≠ 35 ∧ c ≠ 0

lemma Clean.space {s : Text} (h : Clean s) : ∀ c ∈ s, isspace c = false := fun c hc => (h c hc).1

lemma clean_key : ∀ key ∈ resolverKeys, Clean key := by
  have hall : (resolverKeys.all fun key => key.all fun c => !isspace c && c != 35 && c != 0) = true := rfl
  intro key hkey c hc
  have hletter := List.all_eq_true.mp (List.all_eq_true.mp hall key hkey) c hc
  simpa [and_assoc] using hletter

/-- What stands after the key. -/
def body (texts : List Text) : Text := texts.flatMap (32 :: ·) ++ [newline]

lemma mem_body {texts : List Text} {c : UInt8} (hc : c ∈ body texts) :
    c = 32 ∨ c = newline ∨ ∃ s ∈ texts, c ∈ s := by
  rcases List.mem_append.mp hc with hc | hc
  · obtain ⟨s, hs, hc⟩ := List.mem_flatMap.mp hc
    rcases List.mem_cons.mp hc with rfl | hc
    · exact .inl rfl
    · exact .inr (.inr ⟨s, hs, hc⟩)
  · exact .inr (.inl (List.mem_singleton.mp hc))

/-- A character that is neither space nor in a clean word is not on the line. -/
lemma not_mem_line {key : Text} {texts : List Text} {c : UInt8} (hkey : c ∉ key) (hspace : c ≠ 32)
    (hnewline : c ≠ newline) (htexts : ∀ s ∈ texts, c ∉ s) : c ∉ line key texts := by
  intro hc
  rcases List.mem_append.mp hc with hc | hc
  · exact hkey hc
  · rcases mem_body hc with rfl | rfl | ⟨s, hs, hc⟩
    · exact hspace rfl
    · exact hnewline rfl
    · exact htexts s hs hc

lemma fillLine_line (st : Filling) {key : Text} (hkey : key ∈ resolverKeys) {texts : List Text}
    (hne : texts ≠ []) (htexts : ∀ s ∈ texts, Clean s) :
    fillLine st (line key texts) = (readValue st.cache key (eatWhitespaces (body texts))).map fun value =>
      { st with cache := mapInsert (string key) value st.cache } := by
  have hclean := clean_key key hkey
  have hcomment : 35 ∉ line key texts :=
    not_mem_line (fun hc => (hclean 35 hc).2.1 rfl) (by decide) (by decide)
      fun s hs hc => (htexts s hs 35 hc).2.1 rfl
  obtain ⟨s, texts, rfl⟩ := List.exists_cons_of_ne_nil hne
  have hline : line key (s :: texts) = key ++ 32 :: (s ++ body texts) := by
    rw [line, body, List.flatMap_cons, List.cons_append, List.cons_append, List.append_assoc]
  have heat : eatWhitespaces (body (s :: texts)) = eatWhitespaces (s ++ body texts) := by
    rw [body, List.flatMap_cons, List.append_assoc, List.cons_append, eatWhitespaces,
      List.dropWhile_cons_of_pos (by decide)]
    rfl
  rw [fillLine, if_neg hcomment, hline, fillEntry, nextWhitespace_append _ hclean.space (by decide),
    firstWord_append _ hclean.space (by decide), heat]
  exact if_neg (by decide)

/-- A line that fits is read as a whole. -/
lemma fillLines_cons (st : Filling) {lbuf : Text} (hnewline : newline ∉ lbuf) (hzero : 0 ∉ lbuf)
    (hfits : lbuf.length < lineLength) (rest : Text) :
    fillLines st (pieces lineLength [] (lbuf ++ newline :: rest)) =
      (fillLine st (lbuf ++ [newline])).bind fun st => fillLines st (pieces lineLength [] rest) := by
  have hpieces : pieces lineLength [] (lbuf ++ newline :: rest) =
      (lbuf ++ [newline]) :: pieces lineLength [] rest := by
    rw [pieces_line rest hnewline (by simpa using hfits), List.nil_append]
  have hcut : cut (lbuf ++ [newline]) = lbuf ++ [newline] := by
    rw [cut_eq_self]
    intro hmem
    rcases List.mem_append.mp hmem with hmem | hmem
    · exact hzero hmem
    · exact absurd hmem (by decide)
  rw [hpieces, fillLines, hcut]

lemma fillLines_line (st : Filling) {key : Text} (hkey : key ∈ resolverKeys) {texts : List Text}
    (htexts : ∀ s ∈ texts, Clean s) (hfits : (line key texts).length ≤ lineLength) (rest : Text) :
    fillLines st (pieces lineLength [] (line key texts ++ rest)) =
      (fillLine st (line key texts)).bind fun st => fillLines st (pieces lineLength [] rest) := by
  have hclean := clean_key key hkey
  have hspace : isspace newline = true := by decide
  have hnewline : newline ∉ key ++ texts.flatMap (32 :: ·) := by
    intro hc
    rcases List.mem_append.mp hc with hc | hc
    · rw [hclean.space newline hc] at hspace
      cases hspace
    · obtain ⟨s, hs, hc⟩ := List.mem_flatMap.mp hc
      rcases List.mem_cons.mp hc with hc | hc
      · exact absurd hc (by decide)
      · rw [(htexts s hs).space newline hc] at hspace
        cases hspace
  have hzero : 0 ∉ key ++ texts.flatMap (32 :: ·) := by
    intro hc
    have hmem : (0 : UInt8) ∈ line key texts := by
      rw [line, ← List.append_assoc]
      exact List.mem_append_left _ hc
    exact not_mem_line (fun hc => (hclean 0 hc).2.2 rfl) (by decide) (by decide)
      (fun s hs hc => (htexts s hs 0 hc).2.2 rfl) hmem
  have hsplit : line key texts = key ++ texts.flatMap (32 :: ·) ++ [newline] := by
    rw [line, List.append_assoc]
  rw [hsplit, List.length_append, List.length_singleton] at hfits
  rw [hsplit, List.append_assoc, List.singleton_append]
  exact fillLines_cons st hnewline hzero hfits rest

/-! ### The value of a line -/

lemma readValue_list {key : Text} (hkey : isListKey key = true) (cache : List (YCPValue × YCPValue))
    {texts : List Text} (htexts : ∀ s ∈ texts, Clean s) :
    readValue cache key (eatWhitespaces (body texts)) =
      some (list ((texts.filter (· ≠ [])).map string)) := by
  rw [readValue, if_pos hkey, words_eatWhitespaces, body, words_flatMap fun s hs => (htexts s hs).space,
    List.filter_cons_of_neg (by simp)]
  rfl

lemma eatWhitespaces_body {s : Text} (hs : Clean s) : firstWord (eatWhitespaces (body [s])) = s := by
  rw [body, List.flatMap_cons, List.flatMap_nil, List.append_nil]
  exact firstWord_eatWhitespaces hs.space

/-! ### Reading what an entry gives -/

/-- From one state of `fillCache` to another by reading a text, whatever follows it; what it finds
under the other keys stays. -/
structure Reads (text : Text) (key value : YCPValue) (st st' : Filling) : Prop where
  lines : ∀ rest, fillLines st (pieces lineLength [] (text ++ rest)) =
    fillLines st' (pieces lineLength [] rest)
  keys : ∀ e ∈ st'.cache, e.1.isMapKey = true
  found : mapValue st'.cache key = value
  others : ∀ k, k.isMapKey = true → k ≠ key → mapValue st'.cache k = mapValue st.cache k

lemma reads_nil {st : Filling} (hst : ∀ e ∈ st.cache, e.1.isMapKey = true) (key : YCPValue) :
    Reads [] key (mapValue st.cache key) st st :=
  ⟨fun _ => rfl, hst, rfl, fun _ _ _ => rfl⟩

lemma Reads.trans {text text' : Text} {key value value' : YCPValue} {st st' st'' : Filling}
    (h : Reads text key value st st') (h' : Reads text' key value' st' st'') :
    Reads (text ++ text') key value' st st'' where
  lines rest := by rw [List.append_assoc, h.lines, h'.lines]
  keys := h'.keys
  found := h'.found
  others k hk hne := (h'.others k hk hne).trans (h.others k hk hne)

lemma reads_line {st : Filling} (hst : ∀ e ∈ st.cache, e.1.isMapKey = true) {key : Text}
    (hkey : key ∈ resolverKeys) {texts : List Text} (hne : texts ≠ []) (htexts : ∀ s ∈ texts, Clean s)
    (hfits : (line key texts).length ≤ lineLength) {value : YCPValue}
    (hvalue : readValue st.cache key (eatWhitespaces (body texts)) = some value) :
    Reads (line key texts) (string key) value st
      { st with cache := mapInsert (string key) value st.cache } where
  lines rest := by
    rw [fillLines_line st hkey htexts hfits, fillLine_line st hkey hne htexts, hvalue]
    rfl
  keys e he := by
    rcases mem_mapInsert he with rfl | ⟨e', he', heq, -⟩
    · rfl
    · rw [heq]
      exact hst e' he'
  found := mapValue_mapInsert_self hst rfl value
  others k hk hne := mapValue_mapInsert_of_ne hst rfl hk (Ne.symm hne) value

lemma readValue_nameserver {cache : List (YCPValue × YCPValue)} {l : List YCPValue}
    (hcache : mapValue cache (string nameserverKey) = null ∧ l = [] ∨
      mapValue cache (string nameserverKey) = list l) {s : Text} (hs : Clean s) :
    readValue cache nameserverKey (eatWhitespaces (body [s])) = some (list (l ++ [string s])) := by
  have hlist : ¬ isListKey nameserverKey = true := by decide
  rw [readValue, if_neg hlist, if_pos rfl, eatWhitespaces_body hs]
  rcases hcache with ⟨hnull, rfl⟩ | hold
  · rw [hnull]
  · rw [hold]

/-- Each name server has a line of its own and is added to the list. -/
lemma reads_nameservers {texts : List Text} (htexts : ∀ s ∈ texts, Clean s)
    (hfits : ∀ s ∈ texts, (line nameserverKey [s]).length ≤ lineLength) {st : Filling}
    (hst : ∀ e ∈ st.cache, e.1.isMapKey = true) {l : List YCPValue}
    (hold : mapValue st.cache (string nameserverKey) = list l) :
    ∃ st', Reads (texts.flatMap fun s => line nameserverKey [s]) (string nameserverKey)
      (list (l ++ texts.map string)) st st' := by
  induction texts generalizing st l with
  | nil =>
    have hread := reads_nil hst (string nameserverKey)
    rw [hold] at hread
    rw [List.map_nil, List.append_nil]
    exact ⟨st, hread⟩
  | cons s texts ih =>
    have hs := htexts s List.mem_cons_self
    have hkey : nameserverKey ∈ resolverKeys := by decide
    have hline := reads_line hst hkey (List.cons_ne_nil s []) (by simpa using hs)
      (hfits s List.mem_cons_self) (readValue_nameserver (.inr hold) hs)
    obtain ⟨st', hrest⟩ := ih (fun s hs => htexts s (List.mem_cons_of_mem _ hs))
      (fun s hs => hfits s (List.mem_cons_of_mem _ hs)) hline.keys hline.found
    rw [List.append_assoc, List.singleton_append, ← List.map_cons] at hrest
    exact ⟨st', hline.trans hrest⟩

/-! ### The entries of the claim's maps -/

/-- A string that is written as one word. -/
def Plain (s : Text) : Prop := s ≠ [] ∧ ∀ c ∈ s, isspace c = false ∧ c ≠ 35

/-- An entry with a resolver key and a value of its type, of plain strings and on lines that fit the
buffer of `fillCache`. -/
inductive Typed : YCPValue × YCPValue → Prop
  | domain {s : Text} (plain : s = [] ∨ Plain s) (fits : (line domainKey [s]).length ≤ lineLength) :
    Typed (string domainKey, string s)
  | words {key : Text} (listKey : isListKey key = true) {texts : List Text}
    (plain : ∀ s ∈ texts, Plain s) (fits : (line key texts).length ≤ lineLength) :
    Typed (string key, list (texts.map string))
  | nameserver {texts : List Text} (plain : ∀ s ∈ texts, Plain s)
    (fits : ∀ s ∈ texts, (line nameserverKey [s]).length ≤ lineLength) :
    Typed (string nameserverKey, list (texts.map string))

/-- A list of words without any. -/
def EmptyList : YCPValue × YCPValue → Prop
  | (string key, list []) => isListKey key = true
  | _ => False

/-- What is found under the key of an entry after its text is read. -/
def readBack : YCPValue × YCPValue → YCPValue
  | (string key, list l) =>
    if isListKey key then list ((((listStrings l).map cut).filter (· ≠ [])).map string)
    else if listStrings l = [] then null
    else list ((listStrings l).map fun s => string (cut s))
  | (_, string s) => if s = [] then null else string (cut s)
  | _ => null

lemma clean_cut {s : Text} (h : ∀ c ∈ s, isspace c = false ∧ c ≠ 35) : Clean (cut s) := by
  intro c hc
  have hmem : c ∈ s := (List.takeWhile_prefix _).subset hc
  refine ⟨(h c hmem).1, (h c hmem).2, ?_⟩
  rintro rfl
  exact zero_not_mem_cut s hc

lemma length_line_cut_le (key : Text) (texts : List Text) :
    (line key (texts.map cut)).length ≤ (line key texts).length := by
  have hbody : ((texts.map cut).flatMap (32 :: ·)).length ≤ (texts.flatMap (32 :: ·)).length := by
    induction texts with
    | nil => exact Nat.le_refl _
    | cons s texts ih =>
      have hs := cut_length_le s
      simp only [List.map_cons, List.flatMap_cons, List.length_append, List.length_cons] at ih ⊢
      omega
  simp only [line, List.length_append]
  omega

lemma length_le_length_line (key : Text) (texts : List Text) : texts.length ≤ (line key texts).length := by
  have hbody : texts.length ≤ (texts.flatMap (32 :: ·)).length := by
    induction texts with
    | nil => exact Nat.le_refl _
    | cons s texts ih =>
      simp only [List.flatMap_cons, List.length_append, List.length_cons]
      omega
  simp only [line, List.length_append]
  omega

lemma listStrings_map (texts : List Text) :
    listStrings (texts.map string) = texts.take (toInt32 texts.length).toNat := by
  rw [listStrings, ← List.map_take, List.filterMap_map, listSize, List.length_map]
  exact List.filterMap_some

lemma take_toInt32 {texts : List Text} (h : texts.length < 2 ^ 31) :
    texts.take (toInt32 texts.length).toNat = texts := by
  rw [toInt32_of_lt h, Int.toNat_natCast, List.take_length]

lemma resolverKey_of_isListKey {key : Text} (h : isListKey key = true) : key ∈ resolverKeys := by
  simp only [isListKey, Bool.or_eq_true, beq_iff_eq] at h
  rcases h with (rfl | rfl) | rfl
  · decide
  · decide
  · decide

/-- An entry of its type is written unless it is an empty list of words, and its text is read. -/
lemma reads_entry {e : YCPValue × YCPValue} (htyped : Typed e) (hempty : ¬ EmptyList e) :
    ∃ text, flushEntry e = .ok text ∧ ∀ st : Filling, (∀ e ∈ st.cache, e.1.isMapKey = true) →
      mapValue st.cache e.1 = null → ∃ st', Reads text e.1 (readBack e) st st' := by
  cases htyped with
  | @domain s plain fits =>
    refine ⟨_, rfl, fun st hst hnull => ?_⟩
    rcases plain with rfl | plain
    · have hread := reads_nil hst (string domainKey)
      rw [hnull] at hread
      exact ⟨st, hread⟩
    · have hclean := clean_cut plain.2
      have hkey : domainKey ∈ resolverKeys := by decide
      have hvalue : readValue st.cache domainKey (eatWhitespaces (body [cut s])) =
          some (string (cut s)) := by
        rw [readValue, if_neg (by decide), if_neg (by decide), if_pos rfl, eatWhitespaces_body hclean]
      have hread := reads_line hst hkey (List.cons_ne_nil (cut s) []) (by simpa using hclean)
        ((length_line_cut_le domainKey [s]).trans fits) hvalue
      rw [if_neg plain.1, readBack, if_neg plain.1]
      exact ⟨_, hread⟩
  | @words key listKey texts plain fits =>
    have hlength : texts.length < 2 ^ 31 := by
      have hle := (length_le_length_line key texts).trans fits
      unfold lineLength at hle
      omega
    have hne : texts ≠ [] := by
      rintro rfl
      exact hempty listKey
    have hpositive : 0 < texts.length := List.length_pos_iff.mpr hne
    have hsize : listSize (texts.map string) = texts.length := by
      rw [listSize, List.length_map, toInt32_of_lt hlength]
    have hstrings : listStrings (texts.map string) = texts := by
      rw [listStrings_map, take_toInt32 hlength]
    have hclean : ∀ s ∈ texts.map cut, Clean s := by
      intro t ht
      obtain ⟨s, hs, rfl⟩ := List.mem_map.mp ht
      exact clean_cut (plain s hs).2
    refine ⟨line key (texts.map cut), ?_, fun st hst _ => ?_⟩
    · rw [flushEntry, if_pos listKey, hsize, hstrings, if_neg (by omega), if_neg (by omega)]
    · rw [readBack, if_pos listKey, hstrings]
      exact ⟨_, reads_line hst (resolverKey_of_isListKey listKey) (by simpa using hne) hclean
        ((length_line_cut_le key texts).trans fits) (readValue_list listKey st.cache hclean)⟩
  | @nameserver texts plain fits =>
    have hlist : ¬ isListKey nameserverKey = true := by decide
    refine ⟨(listStrings (texts.map string)).flatMap fun s => line nameserverKey [cut s], ?_,
      fun st hst hnull => ?_⟩
    · rw [flushEntry, if_neg hlist, if_pos rfl]
    · rw [readBack, if_neg hlist]
      have hclean : ∀ s ∈ listStrings (texts.map string),
          Clean (cut s) ∧ (line nameserverKey [cut s]).length ≤ lineLength := by
        intro s hs
        rw [listStrings_map] at hs
        have hs := List.mem_of_mem_take hs
        exact ⟨clean_cut (plain s hs).2, (length_line_cut_le nameserverKey [s]).trans (fits s hs)⟩
      generalize listStrings (texts.map string) = written at hclean ⊢
      cases written with
      | nil =>
        have hread := reads_nil hst (string nameserverKey)
        rw [hnull] at hread
        exact ⟨st, hread⟩
      | cons s written =>
        have hkey : nameserverKey ∈ resolverKeys := by decide
        have hs := hclean s List.mem_cons_self
        have hfirst := reads_line hst hkey (List.cons_ne_nil (cut s) []) (by simpa using hs.1) hs.2
          (readValue_nameserver (.inl ⟨hnull, rfl⟩) hs.1)
        have hwritten : ∀ s ∈ written.map cut, Clean s := by
          simpa using fun s hs => (hclean s (List.mem_cons_of_mem _ hs)).1
        have hfits : ∀ s ∈ written.map cut, (line nameserverKey [s]).length ≤ lineLength := by
          simpa using fun s hs => (hclean s (List.mem_cons_of_mem _ hs)).2
        obtain ⟨st', hrest⟩ := reads_nameservers hwritten hfits hfirst.keys hfirst.found
        have hboth := hfirst.trans hrest
        rw [List.flatMap_map, List.map_map] at hboth
        rw [if_neg (List.cons_ne_nil _ _)]
        exact ⟨st', hboth⟩

/-! ### The loop -/

lemma flushEntry_emptyList {e : YCPValue × YCPValue} (h : EmptyList e) :
    ∃ stop, flushEntry e = .error stop := by
  match e, h with
  | (string key, list []), h =>
    have hkey : isListKey key = true := h
    refine ⟨.emptyList key, ?_⟩
    rw [flushEntry, if_pos hkey]
    rfl

/-- The entries up to the first empty list of words are found again; nothing else is. -/
lemma reads_loop {cache : List (YCPValue × YCPValue)} (hcache : MapOrdered cache)
    (htyped : ∀ e ∈ cache, Typed e) {st : Filling} (hst : ∀ e ∈ st.cache, e.1.isMapKey = true)
    (hnull : ∀ e ∈ cache, mapValue st.cache e.1 = null) :
    ∃ st', fillLines st (pieces lineLength [] (flushLoop cache).1) = some st' ∧
      (∀ k, k.isMapKey = true → (∀ e ∈ cache, k ≠ e.1) → mapValue st'.cache k = mapValue st.cache k) ∧
      ∀ before e after, cache = before ++ e :: after →
        ((∀ x ∈ before ++ [e], ¬ EmptyList x) → mapValue st'.cache e.1 = readBack e) ∧
        ((∃ x ∈ before ++ [e], EmptyList x) → mapValue st'.cache e.1 = null) := by
  induction cache generalizing st with
  | nil =>
    refine ⟨st, rfl, fun _ _ _ => rfl, fun before e after heq => ?_⟩
    exact absurd heq (by simp)
  | cons e cache ih =>
    have hkey : e.1.isMapKey = true := hcache.keys e List.mem_cons_self
    have hordered := List.pairwise_cons.mp hcache.increasing
    have hdistinct : ∀ e' ∈ cache, e.1 ≠ e'.1 := by
      intro e' he' heq
      have hless := hordered.1 e' he'
      rw [heq, keyLess_irrefl (hcache.keys e' (List.mem_cons_of_mem e he'))] at hless
      cases hless
    by_cases hempty : EmptyList e
    · obtain ⟨stop, hstop⟩ := flushEntry_emptyList hempty
      have htext : (flushLoop (e :: cache)).1 = [] := by rw [flushLoop, hstop]
      refine ⟨st, by rw [htext]; rfl, fun _ _ _ => rfl, fun before e' after heq => ?_⟩
      have hmem : e' ∈ e :: cache := by simp [heq]
      have hfirst : e ∈ before ++ [e'] := by
        cases before with
        | nil => simp [(List.cons.inj heq).1]
        | cons x before => simp [(List.cons.inj heq).1]
      exact ⟨fun hnone => absurd hempty (hnone e hfirst), fun _ => hnull e' hmem⟩
    · obtain ⟨text, htext, hread⟩ := reads_entry (htyped e List.mem_cons_self) hempty
      obtain ⟨st₁, hread⟩ := hread st hst (hnull e List.mem_cons_self)
      have hnull₁ : ∀ e' ∈ cache, mapValue st₁.cache e'.1 = null := by
        intro e' he'
        have hmem := List.mem_cons_of_mem e he'
        rw [hread.others e'.1 (hcache.keys e' hmem) (Ne.symm (hdistinct e' he'))]
        exact hnull e' hmem
      obtain ⟨st', hlines, hothers, hfound⟩ := ih
        ⟨fun e' he' => hcache.keys e' (List.mem_cons_of_mem e he'), hordered.2⟩
        (fun e' he' => htyped e' (List.mem_cons_of_mem e he')) hread.keys hnull₁
      have hloop : (flushLoop (e :: cache)).1 = text ++ (flushLoop cache).1 := by
        rw [flushLoop, htext]
      refine ⟨st', by rw [hloop, hread.lines, hlines], fun k hk hne => ?_, fun before e' after heq => ?_⟩
      · rw [hothers k hk fun e' he' => hne e' (List.mem_cons_of_mem e he')]
        exact hread.others k hk (hne e List.mem_cons_self)
      · cases before with
        | nil =>
          obtain ⟨rfl, rfl⟩ := List.cons.inj heq
          constructor
          · intro _
            rw [hothers e.1 hkey hdistinct, hread.found]
          · rintro ⟨x, hx, hx'⟩
            rw [List.nil_append, List.mem_singleton] at hx
            exact absurd (hx ▸ hx') hempty
        | cons x before =>
          obtain ⟨rfl, rfl⟩ := List.cons.inj heq
          obtain ⟨hall, hsome⟩ := hfound before e' after rfl
          constructor
          · intro hnone
            exact hall fun y hy => hnone y (List.mem_cons_of_mem e hy)
          · rintro ⟨y, hy, hy'⟩
            rcases List.mem_cons.mp hy with rfl | hy
            · exact absurd hy' hempty
            · exact hsome ⟨y, hy, hy'⟩

/-! ### The header -/

lemma not_headerKey {e : YCPValue × YCPValue} (htyped : Typed e) :
    ∀ h ∈ headers, e.1 ≠ string h.1 := by
  have hkeys : ∀ key ∈ resolverKeys, ∀ h ∈ headers, key ≠ h.1 := by decide
  cases htyped with
  | domain plain fits => exact fun h hh heq => hkeys domainKey (by decide) h hh (string.inj heq)
  | words listKey plain fits =>
    exact fun h hh heq => hkeys _ (resolverKey_of_isListKey listKey) h hh (string.inj heq)
  | nameserver plain fits =>
    exact fun h hh heq => hkeys nameserverKey (by decide) h hh (string.inj heq)

/-- Without info keys the header is a comment. -/
lemma fillLines_header {cache : List (YCPValue × YCPValue)} (hcache : MapOrdered cache)
    (htyped : ∀ e ∈ cache, Typed e) (rest : Text) :
    ∃ st : Filling, st.cache = [] ∧ fillLines .start (pieces lineLength [] (headerText cache ++ rest)) =
      fillLines st (pieces lineLength [] rest) := by
  have hnull : ∀ h ∈ headers, mapValue cache (string h.1) = null := by
    intro h hh
    have hnone : cache.find? (fun e => !keyLess e.1 (string h.1) && !keyLess (string h.1) e.1) = none := by
      rw [List.find?_eq_none]
      intro e he hsame
      rw [Bool.and_eq_true, Bool.not_eq_true', Bool.not_eq_true'] at hsame
      exact not_headerKey (htyped e he) h hh
        (eq_of_not_keyLess (hcache.keys e he) rfl hsame.1 hsame.2)
    rw [mapValue, hnone]
  have hinfo : headers.flatMap (headerLine cache) = [] := by
    rw [List.flatMap_eq_nil_iff]
    intro h hh
    rw [headerLine, hnull h hh]
  have htext : headerText cache ++ rest = ascii "### BEGIN INFO" ++ newline :: (ascii "#" ++ newline ::
      (ascii "#" ++ newline :: (ascii "### END INFO" ++ newline :: (ascii "#" ++ newline :: rest)))) := by
    unfold headerText
    rw [hinfo]
    rfl
  refine ⟨⟨[], false, ascii "#\n#\n", none⟩, rfl, ?_⟩
  have hline (st : Filling) (rest : Text) : fillLines st (pieces lineLength [] (ascii "#" ++ newline :: rest)) =
      (fillLine st (ascii "#" ++ [newline])).bind fun st => fillLines st (pieces lineLength [] rest) :=
    fillLines_cons st (by decide) (by decide) (by decide) rest
  rw [htext, fillLines_cons .start (by decide) (by decide) (by decide)]
  have hbegin : fillLine .start (ascii "### BEGIN INFO" ++ [newline]) =
      some ⟨[], true, [], none⟩ := by rfl
  rw [hbegin, Option.bind_some, hline]
  have hfirst : fillLine ⟨[], true, [], none⟩ (ascii "#" ++ [newline]) =
      some ⟨[], true, ascii "#\n", none⟩ := by rfl
  rw [hfirst, Option.bind_some, hline]
  have hsecond : fillLine ⟨[], true, ascii "#\n", none⟩ (ascii "#" ++ [newline]) =
      some ⟨[], true, ascii "#\n#\n", none⟩ := by rfl
  rw [hsecond, Option.bind_some, fillLines_cons _ (by decide) (by decide) (by decide)]
  have hend : fillLine ⟨[], true, ascii "#\n#\n", none⟩ (ascii "### END INFO" ++ [newline]) =
      some ⟨[], false, ascii "#\n#\n", none⟩ := by rfl
  rw [hend, Option.bind_some, hline]
  rfl

/-! ### What is read back is the value -/

def NulFreeStrings : YCPValue → Prop
  | string s => 0 ∉ s
  | list l => ∀ s, string s ∈ l → 0 ∉ s
  | _ => True

lemma map_string_inj {texts texts' : List Text} : texts.map string = texts'.map string ↔ texts = texts' :=
  ⟨fun h => List.map_injective_iff.mpr (fun _ _ h => string.inj h) h, fun h => h ▸ rfl⟩

lemma nulFreeStrings_map {texts : List Text} :
    NulFreeStrings (list (texts.map string)) ↔ ∀ s ∈ texts, 0 ∉ s := by
  constructor
  · intro h s hs
    exact h s (List.mem_map_of_mem hs)
  · intro h s hs
    obtain ⟨t, ht, heq⟩ := List.mem_map.mp hs
    exact string.inj heq ▸ h t ht

lemma map_cut_eq_self {texts : List Text} (h : ∀ s ∈ texts, 0 ∉ s) : texts.map cut = texts :=
  (List.map_congr_left fun s hs => cut_eq_self.mpr (h s hs)).trans (List.map_id texts)

lemma zero_not_mem_of_map_cut {texts texts' : List Text} (h : texts.map cut = texts') :
    ∀ s ∈ texts', 0 ∉ s := by
  intro s hs
  rw [← h] at hs
  obtain ⟨t, -, rfl⟩ := List.mem_map.mp hs
  exact zero_not_mem_cut t

/-- The value of an entry that is not empty is read back unless a string has a NUL or the list is too
long for its size. -/
lemma readBack_eq_iff {e : YCPValue × YCPValue} (htyped : Typed e) (hstring : e.2 ≠ string [])
    (hlist : e.2 ≠ list []) :
    readBack e = e.2 ↔ NulFreeStrings e.2 ∧ ∀ l, e.2 = list l → l.length < 2 ^ 31 := by
  cases htyped with
  | @domain s plain fits =>
    have hs : s ≠ [] := fun h => hstring (h ▸ rfl)
    rw [readBack, if_neg hs]
    constructor
    · intro h
      exact ⟨cut_eq_self.mp (string.inj h), fun l hl => YCPValue.noConfusion hl⟩
    · rintro ⟨h, -⟩
      exact congrArg string (cut_eq_self.mpr h)
  | @words key listKey texts plain fits =>
    have hlength : texts.length < 2 ^ 31 := by
      have hle := (length_le_length_line key texts).trans fits
      unfold lineLength at hle
      omega
    have hbound : ∀ l, list (texts.map string) = list l → l.length < 2 ^ 31 := by
      intro l hl
      rwa [← list.inj hl, List.length_map]
    rw [readBack, if_pos listKey, listStrings_map, take_toInt32 hlength, nulFreeStrings_map]
    constructor
    · intro h
      have hfilter := map_string_inj.mp (list.inj h)
      refine ⟨fun s hs => ?_, hbound⟩
      rw [← hfilter] at hs
      exact zero_not_mem_of_map_cut rfl s (List.mem_of_mem_filter hs)
    · rintro ⟨h, -⟩
      rw [map_cut_eq_self h, List.filter_eq_self.mpr fun s hs => decide_eq_true (plain s hs).1]
  | @nameserver texts plain fits =>
    have hne : texts ≠ [] := fun h => hlist (h ▸ rfl)
    rw [readBack, if_neg (by decide), listStrings_map, nulFreeStrings_map]
    constructor
    · intro h
      split at h
      · cases h
      · have htake : (texts.take (toInt32 texts.length).toNat).map cut = texts := by
          rw [← map_string_inj, List.map_map]
          exact list.inj h
        have hlength := congrArg List.length htake
        rw [List.length_map, List.length_take] at hlength
        have hint : toInt32 texts.length < 2 ^ 31 := Int.bmod_lt (by decide)
        refine ⟨zero_not_mem_of_map_cut htake, fun l hl => ?_⟩
        rw [← list.inj hl, List.length_map]
        omega
    · rintro ⟨h, hl⟩
      have hlength := hl _ rfl
      rw [List.length_map] at hlength
      rw [take_toInt32 hlength, if_neg hne]
      have hmap := congrArg (List.map string) (map_cut_eq_self h)
      rw [List.map_map] at hmap
      exact congrArg list hmap

/-! ### Stopping at a wrong type -/

/-- The values that `flushCache` calls bad. -/
def WrongType : YCPValue × YCPValue → Prop
  | (string key, value) =>
    ((isListKey key = true ∨ key = nameserverKey) ∧ ∀ l, value ≠ list l) ∨
      key = domainKey ∧ ∀ s, value ≠ string s
  | _ => False

/-- The entries after which the loop goes on. -/
def Passes : YCPValue × YCPValue → Prop
  | (string key, value) => ¬ WrongType (string key, value) ∧
    (isListKey key = true → ∀ l, value = list l → 0 < listSize l)
  | _ => False

lemma passes_of_not_wrongType {key : Text} {value : YCPValue} (hlist : ¬ isListKey key = true)
    (h : ¬ WrongType (string key, value)) : Passes (string key, value) :=
  ⟨h, fun hkey => absurd hkey hlist⟩

/-- How one turn of the loop of `flushCache` ends. -/
inductive Turn (e : YCPValue × YCPValue) : Prop
  | passed (text : Text) (passes : Passes e) (result : flushEntry e = .ok text)
  | wrong (key : Text) (wrongType : WrongType e) (result : flushEntry e = .error (.badValue key))
  | stopped (stop : Stop) (passes : ¬ Passes e) (wrongType : ¬ WrongType e)
    (result : flushEntry e = .error stop) (reason : ∀ key, stop ≠ .badValue key)

lemma turn_list {key : Text} (hkey : isListKey key = true) (value : YCPValue) :
    Turn (string key, value) := by
  cases value with
  | list l =>
    have hright : ¬ WrongType (string key, list l) := by
      rintro (⟨-, h⟩ | ⟨rfl, -⟩)
      · exact h l rfl
      · exact absurd hkey (by decide)
    have hpasses : Passes (string key, list l) ↔ 0 < listSize l := by
      constructor
      · exact fun h => h.2 hkey l rfl
      · exact fun h => ⟨hright, fun _ l' hl' => list.inj hl' ▸ h⟩
    rcases Int.lt_trichotomy (listSize l) 0 with hsize | hsize | hsize
    · refine .stopped (.badSize key) (by rw [hpasses]; omega) hright ?_ fun _ => Stop.noConfusion
      rw [flushEntry, if_pos hkey, if_pos hsize]
    · refine .stopped (.emptyList key) (by rw [hpasses]; omega) hright ?_ fun _ => Stop.noConfusion
      rw [flushEntry, if_pos hkey, if_neg (by omega), if_pos hsize]
    · refine .passed (line key ((listStrings l).map cut)) (hpasses.mpr hsize) ?_
      rw [flushEntry, if_pos hkey, if_neg (by omega), if_neg (by omega)]
  | _ => exact .wrong key (.inl ⟨.inl hkey, by simp⟩) (if_pos hkey)

lemma turn_nameserver (value : YCPValue) : Turn (string nameserverKey, value) := by
  have hlist : ¬ isListKey nameserverKey = true := by decide
  cases value with
  | list l =>
    have hright : ¬ WrongType (string nameserverKey, list l) := by
      rintro (⟨-, h⟩ | ⟨h, -⟩)
      · exact h l rfl
      · exact absurd h (by decide)
    exact .passed _ (passes_of_not_wrongType hlist hright) rfl
  | _ =>
    exact .wrong nameserverKey (.inl ⟨.inr rfl, by simp⟩) rfl

lemma turn_domain (value : YCPValue) : Turn (string domainKey, value) := by
  have hlist : ¬ isListKey domainKey = true := by decide
  have hname : domainKey ≠ nameserverKey := by decide
  cases value with
  | string s =>
    have hright : ¬ WrongType (string domainKey, string s) := by
      rintro (⟨h | h, -⟩ | ⟨-, h⟩)
      · exact hlist h
      · exact hname h
      · exact h s rfl
    exact .passed _ (passes_of_not_wrongType hlist hright)
      rfl
  | _ =>
    exact .wrong domainKey (.inr ⟨rfl, by simp⟩)
      rfl

lemma turn (e : YCPValue × YCPValue) : Turn e := by
  obtain ⟨k, value⟩ := e
  cases k with
  | string key =>
    by_cases hlist : isListKey key = true
    · exact turn_list hlist value
    by_cases hname : key = nameserverKey
    · rw [hname]
      exact turn_nameserver value
    by_cases hdomain : key = domainKey
    · rw [hdomain]
      exact turn_domain value
    have hright : ¬ WrongType (string key, value) := by
      rintro (⟨h | h, -⟩ | ⟨h, -⟩)
      · exact hlist h
      · exact hname h
      · exact hdomain h
    exact .passed [] (passes_of_not_wrongType hlist hright)
      ((if_neg hlist).trans ((if_neg hname).trans (if_neg hdomain)))
  | _ => exact .stopped .badKey (fun h => h) (fun h => h) rfl fun _ => Stop.noConfusion

/-- Every wrong type stands behind an entry that stops the loop. -/
def WrongTypesHidden (cache : List (YCPValue × YCPValue)) : Prop :=
  ∀ before e after, cache = before ++ e :: after → (∀ x ∈ before, Passes x) → ¬ WrongType e

/-- The loop stops at a wrong type unless all of them are hidden. -/
lemma stop_badValue_iff (cache : List (YCPValue × YCPValue)) :
    (∃ key, (flushLoop cache).2 = some (.badValue key)) ↔ ¬ WrongTypesHidden cache := by
  induction cache with
  | nil =>
    constructor
    · rintro ⟨key, h⟩
      cases h
    · intro h
      refine absurd (fun before e after heq => ?_) h
      exact absurd heq (by simp)
  | cons e cache ih =>
    cases turn e with
    | passed text passes result =>
      have hloop : (flushLoop (e :: cache)).2 = (flushLoop cache).2 := by rw [flushLoop, result]
      have hhidden : WrongTypesHidden (e :: cache) ↔ WrongTypesHidden cache := by
        constructor
        · rintro h before x after rfl hbefore
          refine h (e :: before) x after rfl fun y hy => ?_
          rcases List.mem_cons.mp hy with rfl | hy
          · exact passes
          · exact hbefore y hy
        · intro h before x after heq hbefore
          cases before with
          | nil =>
            obtain ⟨rfl, -⟩ := List.cons.inj heq
            obtain ⟨k, value⟩ := e
            cases k with
            | string key => exact passes.1
            | _ => exact absurd passes (fun h => h)
          | cons y before =>
            obtain ⟨-, rfl⟩ := List.cons.inj heq
            exact h before x after rfl fun z hz => hbefore z (List.mem_cons_of_mem y hz)
      rw [hloop, ih, hhidden]
    | wrong key wrongType result =>
      constructor
      · intro _ hhidden
        exact hhidden [] e cache rfl (by simp) wrongType
      · intro _
        exact ⟨key, by rw [flushLoop, result]⟩
    | stopped stop passes wrongType result reason =>
      constructor
      · rintro ⟨key, hkey⟩
        rw [flushLoop, result] at hkey
        exact absurd (Option.some.inj hkey) (reason key)
      · intro hnot
        refine absurd (fun before x after heq hbefore => ?_) hnot
        cases before with
        | nil =>
          obtain ⟨rfl, -⟩ := List.cons.inj heq
          exact wrongType
        | cons y before =>
          obtain ⟨rfl, -⟩ := List.cons.inj heq
          exact absurd (hbefore e List.mem_cons_self) passes

/-! ### The flush -/

/-- An agent that reads the file for the first time finds every value that is not empty. -/
def Survives (a : Agent) (file : Option Text) : Prop :=
  ∀ reader : Agent, reader.cacheValid = false →
    ∃ reader', fillCache reader (flushCache a true file).2.1 = some (reader', 0) ∧
      ∀ e ∈ a.localCache, e.2 ≠ string [] → e.2 ≠ list [] → mapValue reader'.localCache e.1 = e.2

/-- A key that is left out for its type is reported. -/
def ReportsFailure (a : Agent) (file : Option Text) : Prop :=
  ∀ key, (flushLoop a.localCache).2 = some (.badValue key) → (flushCache a true file).2.2 ≠ 0

/-- No value that is not empty stands behind an empty list of words, has a string with a NUL or is a
list whose size is no `int`. -/
def Kept (cache : List (YCPValue × YCPValue)) : Prop :=
  ∀ before e after, cache = before ++ e :: after → e.2 ≠ string [] → e.2 ≠ list [] →
    (∀ x ∈ before, ¬ EmptyList x) ∧ NulFreeStrings e.2 ∧ ∀ l, e.2 = list l → l.length < 2 ^ 31

lemma not_emptyList {e : YCPValue × YCPValue} (h : e.2 ≠ list []) : ¬ EmptyList e := by
  intro hempty
  match e, hempty with
  | (string key, list []), _ => exact h rfl

lemma null_ne_of_typed {e : YCPValue × YCPValue} (htyped : Typed e) : null ≠ e.2 := by
  cases htyped with
  | _ => exact YCPValue.noConfusion

section Flush

variable {a : Agent} (hordered : MapOrdered a.localCache) (hvalid : a.cacheValid = true)
  (hdirty : a.cacheDirty = true) (file : Option Text)

include hvalid hdirty in
lemma flushCache_eq : flushCache a true file = ({ a with cacheDirty := false }, some (flushText a),
    if (flushLoop a.localCache).2 = some .badKey then -1 else 0) := by
  unfold flushCache
  rw [hvalid, hdirty]
  rfl

include hordered in
/-- What is found in the file that `flushCache` writes. -/
lemma fillLines_flushText (htyped : ∀ e ∈ a.localCache, Typed e) :
    ∃ st, fillLines .start (pieces lineLength [] (flushText a)) = some st ∧
      ∀ before e after, a.localCache = before ++ e :: after →
        ((∀ x ∈ before ++ [e], ¬ EmptyList x) → mapValue st.cache e.1 = readBack e) ∧
        ((∃ x ∈ before ++ [e], EmptyList x) → mapValue st.cache e.1 = null) := by
  obtain ⟨st₀, hcache, hheader⟩ : ∃ st : Filling, st.cache = [] ∧
      fillLines .start (pieces lineLength [] (flushText a)) =
        fillLines st (pieces lineLength [] (flushLoop a.localCache).1) := by
    unfold flushText
    split
    · exact fillLines_header hordered htyped _
    · exact ⟨.start, rfl, rfl⟩
  have hkeys : ∀ e ∈ st₀.cache, e.1.isMapKey = true := by simp [hcache]
  have hnull : ∀ e ∈ a.localCache, mapValue st₀.cache e.1 = null := by
    intro e _
    rw [hcache]
    rfl
  obtain ⟨st, hlines, -, hfound⟩ := reads_loop hordered htyped hkeys hnull
  exact ⟨st, hheader.trans hlines, hfound⟩

include hordered hvalid hdirty in
lemma survives_iff (htyped : ∀ e ∈ a.localCache, Typed e) : Survives a file ↔ Kept a.localCache := by
  obtain ⟨st, hlines, hfound⟩ := fillLines_flushText hordered htyped
  have hfill (reader : Agent) (hreader : reader.cacheValid = false) :
      fillCache reader (flushCache a true file).2.1 =
        some ({ reader with localCache := st.cache, cacheValid := true }, 0) := by
    rw [flushCache_eq hvalid hdirty, fillCache, hreader, if_neg Bool.false_ne_true]
    simp only [hlines, Option.map_some]
  constructor
  · intro h before e after heq hstring hlist
    have he : e ∈ a.localCache := by simp [heq]
    obtain ⟨reader', hread, hvalues⟩ := h ⟨[], false, false, false⟩ rfl
    rw [hfill _ rfl] at hread
    have hvalue := hvalues e he hstring hlist
    rw [← (Prod.mk.inj (Option.some.inj hread)).1] at hvalue
    have hnone : ∀ x ∈ before ++ [e], ¬ EmptyList x := by
      by_contra hsome
      push Not at hsome
      have hnull := (hfound before e after heq).2 hsome
      exact null_ne_of_typed (htyped e he) (hnull.symm.trans hvalue)
    have hback : readBack e = e.2 := ((hfound before e after heq).1 hnone).symm.trans hvalue
    exact ⟨fun x hx => hnone x (List.mem_append_left _ hx),
      (readBack_eq_iff (htyped e he) hstring hlist).mp hback⟩
  · intro h reader hreader
    refine ⟨_, hfill reader hreader, fun e he hstring hlist => ?_⟩
    obtain ⟨before, after, heq⟩ := List.append_of_mem he
    obtain ⟨hnone, hrest⟩ := h before e after heq hstring hlist
    have hall : ∀ x ∈ before ++ [e], ¬ EmptyList x := by
      intro x hx
      rcases List.mem_append.mp hx with hx | hx
      · exact hnone x hx
      · exact List.mem_singleton.mp hx ▸ not_emptyList hlist
    rw [(hfound before e after heq).1 hall]
    exact (readBack_eq_iff (htyped e he) hstring hlist).mpr hrest

include hvalid hdirty in
lemma reportsFailure_iff : ReportsFailure a file ↔ WrongTypesHidden a.localCache := by
  rw [← not_iff_not, ← stop_badValue_iff]
  unfold ReportsFailure
  push Not
  refine exists_congr fun key => ⟨fun h => h.1, fun h => ⟨h, ?_⟩⟩
  rw [flushCache_eq hvalid hdirty, h]
  rfl

end Flush

/-- A flush keeps what it is given, and reports a wrong type, only if no empty list of words hides
other values, no string has a NUL, all sizes are in the range of `int` and no wrong type is reached. -/
theorem flush_survives_iff (a : Agent) (file : Option Text) (hordered : MapOrdered a.localCache)
    (hvalid : a.cacheValid = true) (hdirty : a.cacheDirty = true) :
    (((∀ e ∈ a.localCache, Typed e) → Survives a file) ∧ ReportsFailure a file) ↔
      ((∀ e ∈ a.localCache, Typed e) → Kept a.localCache) ∧ WrongTypesHidden a.localCache := by
  rw [reportsFailure_iff hvalid hdirty]
  refine and_congr_left fun _ => forall_congr' fun htyped => ?_
  exact survives_iff hordered hvalid hdirty file htyped

lemma typed_search : Typed (string searchKey, list [string [97]]) := by
  have hplain : ∀ s ∈ ([[97]] : List Text), Plain s := by
    intro s hs
    rw [List.mem_singleton] at hs
    subst hs
    refine ⟨List.cons_ne_nil _ _, fun c hc => ?_⟩
    rw [List.mem_singleton] at hc
    subst hc
    exact ⟨rfl, by decide⟩
  exact Typed.words (by decide) hplain (by decide)

lemma typed_options : Typed (string optionsKey, list []) := by
  have hplain : ∀ s ∈ ([] : List Text), Plain s := by simp
  exact Typed.words (by decide) hplain (by decide)

/-- A search list alone survives. -/
theorem flush_survives_search :
    Survives ⟨[(string searchKey, list [string [97]])], true, true, false⟩ none := by
  have hordered : MapOrdered [(string searchKey, list [string [97]])] :=
    ⟨by simp [isMapKey], List.pairwise_singleton _ _⟩
  refine ((flush_survives_iff ⟨_, true, true, false⟩ none hordered rfl rfl).mpr ⟨fun _ => ?_, ?_⟩).1 ?_
  · intro before e after heq _ _
    cases before with
    | nil =>
      obtain ⟨rfl, rfl⟩ := List.cons.inj heq
      exact ⟨by simp, by simp [NulFreeStrings], by simp⟩
    | cons x before => exact absurd heq (by simp)
  · intro before e after heq _
    cases before with
    | nil =>
      obtain ⟨rfl, rfl⟩ := List.cons.inj heq
      rintro (⟨-, h⟩ | ⟨h, -⟩)
      · exact h _ rfl
      · exact absurd h (by decide)
    | cons x before => exact absurd heq (by simp)
  · intro e he
    rw [List.mem_singleton.mp he]
    exact typed_search

/-- With empty options the search list is not written, and a domain that is no string is left out
without a report; both maps are accepted by `Write`. -/
theorem flush_drops_search :
    (∃ a file, write ⟨[], false, false, false⟩ true (some []) []
        (map [(string optionsKey, list []), (string searchKey, list [string [97]])]) =
          some (a, file, true) ∧
      MapOrdered a.localCache ∧ (∀ e ∈ a.localCache, Typed e) ∧ ¬ Survives a file) ∧
    ∃ a file, write ⟨[], false, false, false⟩ true (some []) [] (map [(string domainKey, integer 3)]) =
        some (a, file, true) ∧
      MapOrdered a.localCache ∧ ¬ ReportsFailure a file := by
  constructor
  · refine ⟨_, _, rfl, ?_, ?_, ?_⟩
    · refine ⟨by simp [isMapKey], ?_⟩
      refine List.pairwise_cons.mpr ⟨fun e he => ?_, List.pairwise_singleton _ _⟩
      rw [List.mem_singleton.mp he]
      rfl
    · intro e he
      rcases List.mem_cons.mp he with rfl | he
      · exact typed_options
      · rw [List.mem_singleton.mp he]
        exact typed_search
    · intro h
      obtain ⟨reader', hread, hvalues⟩ := h ⟨[], false, false, false⟩ rfl
      have hvalue := hvalues (string searchKey, list [string [97]]) (by simp) (by simp) (by simp)
      have hempty : reader' = ⟨[], false, true, false⟩ := (Prod.mk.inj (Option.some.inj hread)).1.symm
      rw [hempty] at hvalue
      cases hvalue
  · refine ⟨_, _, rfl, ⟨by simp [isMapKey], List.pairwise_singleton _ _⟩, ?_⟩
    intro h
    exact h domainKey rfl rfl

end YastCore.Resolver
