import YastCore.Value.Order

/-!
# The order of values of any size

With sizes that have overflowed the comparison still goes by a key, though not by one that tells all
values apart: a list of negative size is known by its size alone. What is left are the comparisons that
do not come to an end and those that run past the end of a map; either way round they give no answer.
-/

namespace YastCore.YCPValue

open KeyOrder

/-! ### Keys -/

/-- The key of the elements, given the size as an `int`. A size that is not positive says all; zero is
less than the negative ones. -/
def sizedKey (size : Int) (elements : List Int) : List Int :=
  if 0 < size then 2 :: elements else [if size = 0 then 0 else 1, size]

mutual

/-- The key of a value of any size: its type, then what the comparison sees of it. -/
def wideKey : YCPValue → List Int
  | boolean b => [1, b.toNat]
  | integer i => [2, i.toInt]
  | string t => 4 :: textKey t
  | byteblock b => 5 :: b.length :: b.map fun c => (c.toNat : Int)
  | path p => 6 :: listKey (fun c : PathComponent => textKey c.component) p
  | symbol t => 7 :: textKey t
  | list l => 8 :: sizedKey (toInt32 l.length) (wideElements (toInt32 l.length).toNat l)
  | term n l => 9 :: (textKey n ++ sizedKey (toInt32 l.length) (wideElements (toInt32 l.length).toNat l))
  | map m => 10 :: toInt32 m.length :: if toInt32 m.length = 0 then [] else wideEntries m
  | v => [v.valuetype]

/-- The first elements, as many as the size says. -/
def wideElements : Nat → List YCPValue → List Int
  | n + 1, v :: l => 1 :: (wideKey v ++ wideElements n l)
  | _, _ => [0]

def wideEntries : List (YCPValue × YCPValue) → List Int
  | [] => []
  | (k, v) :: m => wideKey k ++ (wideKey v ++ wideEntries m)

end

lemma wideElements_eq (n : Nat) (l : List YCPValue) : wideElements n l = listKey wideKey (l.take n) := by
  induction l generalizing n with
  | nil => cases n <;> simp [wideElements, listKey]
  | cons v l ih =>
    cases n with
    | zero => simp [wideElements, listKey]
    | succ n => rw [wideElements, ih, List.take_succ_cons, listKey]

lemma wideKey_head (v : YCPValue) : ∃ t, wideKey v = (v.valuetype : Int) :: t := by
  cases v <;> simp [wideKey, valuetype]

/-! ### Answers both ways round -/

/-- If both comparisons answer, they answer with the order of the keys. -/
def Agree {α : Type} (key : α → List Int) (answer answer' : Option Ordering) (a b : α) : Prop :=
  ∀ o o', answer = some o → answer' = some o' → KeyAt key o a b ∧ KeyAt key o' b a

section Agreement

variable {α : Type} {key : α → List Int} {a b : α}

lemma agree_of_keyAt {o o' : Ordering} (h : KeyAt key o a b) (h' : KeyAt key o' b a) :
    Agree key (some o) (some o') a b := by
  intro o₁ o₂ ho₁ ho₂
  obtain rfl := Option.some.inj ho₁
  obtain rfl := Option.some.inj ho₂
  exact ⟨h, h'⟩

lemma keyAt_swap {o o' : Ordering} (h : KeyAt key o a b) (h' : KeyAt key o' b a) : o' = o.swap := by
  rw [← h.lex_eq, ← h'.lex_eq, lex_swap]

lemma Agree.symm {answer answer' : Option Ordering} (h : Agree key answer answer' a b) :
    Agree key answer' answer b a := fun o o' ho ho' => (h o' o ho' ho).symm

/-- One number before both keys. -/
lemma Agree.tag {β : Type} {part : β → List Int} {answer answer' : Option Ordering} {c d : β}
    (h : Agree part answer answer' c d) (x : Int) (ha : key a = x :: part c) (hb : key b = x :: part d) :
    Agree key answer answer' a b := by
  intro o o' ho ho'
  obtain ⟨hkey, hkey'⟩ := h o o' ho ho'
  constructor
  · intro r s
    rw [ha, hb, List.cons_append, List.cons_append, lex_cons_self, hkey]
  · intro r s
    rw [ha, hb, List.cons_append, List.cons_append, lex_cons_self, hkey']

/-- The second comparison where the first finds no difference. -/
def andThen (answer next : Option Ordering) : Option Ordering :=
  match answer with
  | some .eq => next
  | o => o

lemma andThen_eq (next : Option Ordering) : andThen (some .eq) next = next := rfl

lemma andThen_of_ne {o : Ordering} (ho : o ≠ .eq) (next : Option Ordering) :
    andThen (some o) next = some o := by
  cases o with
  | eq => exact absurd rfl ho
  | _ => rfl

lemma andThen_eq_eq_iff {answer next : Option Ordering} :
    YCPValue.andThen answer next = some .eq ↔ answer = some .eq ∧ next = some .eq := by
  cases answer with
  | none => simp [YCPValue.andThen]
  | some o => cases o <;> simp [YCPValue.andThen]

/-- Keys one after the other for comparisons one after the other. -/
lemma Agree.andThen {β : Type} {key' : β → List Int} {c d : β}
    {answer answer' next next' : Option Ordering} (h : Agree key answer answer' a b)
    (hnext : Agree key' next next' c d) :
    Agree (fun x : α × β => key x.1 ++ key' x.2) (andThen answer next) (andThen answer' next') (a, c)
      (b, d) := by
  intro o o' ho ho'
  cases answer with
  | none => simp [YCPValue.andThen] at ho
  | some o₁ =>
    cases answer' with
    | none => simp [YCPValue.andThen] at ho'
    | some o₂ =>
      obtain ⟨hkey, hkey'⟩ := h o₁ o₂ rfl rfl
      have hswap := keyAt_swap hkey hkey'
      by_cases heq : o₁ = .eq
      · subst heq
        subst hswap
        obtain ⟨hc, hd⟩ := hnext o o' ho ho'
        constructor
        · intro r s
          rw [List.append_assoc, List.append_assoc, hkey, Ordering.eq_then, hc]
        · intro r s
          rw [List.append_assoc, List.append_assoc, hkey', Ordering.swap_eq, Ordering.eq_then, hd]
      · have heq' : o₂ ≠ .eq := by
          rw [hswap]
          cases o₁ <;> simp_all
        rw [andThen_of_ne heq, Option.some.injEq] at ho
        rw [andThen_of_ne heq', Option.some.injEq] at ho'
        subst ho ho'
        constructor
        · intro r s
          rw [List.append_assoc, List.append_assoc, hkey, then_of_ne heq, then_of_ne heq]
        · intro r s
          rw [List.append_assoc, List.append_assoc, hkey', then_of_ne heq', then_of_ne heq']

end Agreement

/-! ### Elements -/

/-- The loop of `YCPListRep::compare` and what follows it, over all elements. -/
def elementsVerdict (l m : List YCPValue) : Option Ordering :=
  match compareElements (min l.length m.length) l m with
  | some .eq => some (Ord.compare l.length m.length)
  | o => o

lemma elementsVerdict_cons (v w : YCPValue) (l m : List YCPValue) :
    elementsVerdict (v :: l) (w :: m) = andThen (compare v w) (elementsVerdict l m) := by
  have hmin : min (v :: l).length (w :: m).length = min l.length m.length + 1 := by
    simp only [List.length_cons]
    omega
  have hlength : Ord.compare (v :: l).length (w :: m).length = Ord.compare l.length m.length := by
    simp only [List.length_cons, Nat.compare_eq_ite_lt, Nat.add_lt_add_iff_right]
  rw [elementsVerdict, hmin, hlength, compareElements]
  cases compare v w with
  | none => rfl
  | some o => cases o <;> rfl

lemma elements_agree {l m : List YCPValue}
    (h : ∀ v ∈ l, ∀ w ∈ m, Agree wideKey (compare v w) (compare w v) v w) :
    Agree (listKey wideKey) (elementsVerdict l m) (elementsVerdict m l) l m := by
  induction l generalizing m with
  | nil =>
    cases m with
    | nil => exact agree_of_keyAt listKey_nil listKey_nil
    | cons w m => exact agree_of_keyAt (listKey_nil_cons w m) (listKey_cons_nil w m)
  | cons v l ih =>
    cases m with
    | nil => exact agree_of_keyAt (listKey_cons_nil v l) (listKey_nil_cons v l)
    | cons w m =>
      have htail := ih (m := m) fun v hv w hw =>
        h v (List.mem_cons_of_mem _ hv) w (List.mem_cons_of_mem _ hw)
      have hboth := (h v List.mem_cons_self w List.mem_cons_self).andThen htail
      rw [elementsVerdict_cons, elementsVerdict_cons]
      exact hboth.tag 1 rfl rfl

lemma compareElements_take {n a b : Nat} (ha : n ≤ a) (hb : n ≤ b) (l m : List YCPValue) :
    compareElements n (l.take a) (m.take b) = compareElements n l m := by
  induction n generalizing a b l m with
  | zero => rw [compareElements.eq_def, compareElements.eq_def]
  | succ n ih =>
    obtain ⟨a, rfl⟩ := Nat.exists_eq_add_of_le' (Nat.le_trans (Nat.succ_le_succ (Nat.zero_le n)) ha)
    obtain ⟨b, rfl⟩ := Nat.exists_eq_add_of_le' (Nat.le_trans (Nat.succ_le_succ (Nat.zero_le n)) hb)
    cases l with
    | nil => simp [compareElements]
    | cons v l =>
      cases m with
      | nil => simp [compareElements]
      | cons w m =>
        rw [List.take_succ_cons, List.take_succ_cons, compareElements, compareElements]
        rw [ih (by omega) (by omega)]

/-! ### Sizes -/

section Sizes

variable {size size' : Int} (e e' : List Int)

/-- The order of two sizes that are not positive. -/
def sizeOrder (size size' : Int) : Ordering :=
  (Ord.compare (if size = 0 then 0 else 1 : Int) (if size' = 0 then 0 else 1 : Int)).then
    (Ord.compare size size')

lemma sizedKey_of_pos (h : 0 < size) : sizedKey size e = 2 :: e := if_pos h

lemma sizedKey_of_le (h : size ≤ 0) : sizedKey size e = [if size = 0 then 0 else 1, size] :=
  if_neg (by omega)

lemma lex_sizedKey_le_le (h : size ≤ 0) (h' : size' ≤ 0) (r s : List Int) :
    lex (sizedKey size e ++ r) (sizedKey size' e' ++ s) = (sizeOrder size size').then (lex r s) := by
  rw [sizedKey_of_le e h, sizedKey_of_le e' h', List.cons_append, List.cons_append, List.cons_append,
    List.cons_append, lex_cons, lex_cons, sizeOrder, Ordering.then_assoc]
  rfl

lemma lex_sizedKey_le_pos (h : size ≤ 0) (h' : 0 < size') (r s : List Int) :
    lex (sizedKey size e ++ r) (sizedKey size' e' ++ s) = .lt := by
  rw [sizedKey_of_le e h, sizedKey_of_pos e' h', List.cons_append, List.cons_append]
  apply lex_cons_of_lt
  split <;> omega

lemma lex_sizedKey_pos_le (h : 0 < size) (h' : size' ≤ 0) (r s : List Int) :
    lex (sizedKey size e ++ r) (sizedKey size' e' ++ s) = .gt := by
  rw [sizedKey_of_pos e h, sizedKey_of_le e' h', List.cons_append, List.cons_append]
  apply lex_cons_of_gt
  split <;> omega

/-- `YCPListRep::compare`, given the sizes. -/
def compareSized (size size' : Int) (elements : Nat → Option Ordering) : Option Ordering :=
  if size = 0 ∧ size' = 0 then some .eq
  else if size = 0 then some .lt
  else if size' = 0 then some .gt
  else
    match elements (min size size').toNat with
    | some .eq => some (if size = size' then .eq else if size < size' then .lt else .gt)
    | o => o

lemma compareList_eq_sized (a b : Nat) (elements : Nat → Option Ordering) :
    compareList a b elements = compareSized (toInt32 a) (toInt32 b) elements := rfl

variable {elements : Nat → Option Ordering}

lemma compareSized_of_ne (h : size ≠ 0) (h' : size' ≠ 0)
    (helements : elements (min size size').toNat = some .eq) :
    compareSized size size' elements = some (Ord.compare size size') := by
  rw [compareSized, if_neg (by omega), if_neg h, if_neg h', helements]
  rcases Int.lt_trichotomy size size' with hlt | heq | hgt
  · rw [Int.compare_eq_lt.mpr hlt]
    simp [Int.ne_of_lt hlt, hlt]
  · rw [Int.compare_eq_eq.mpr heq]
    simp [heq]
  · rw [Int.compare_eq_gt.mpr hgt]
    simp [Int.ne_of_gt hgt, Int.not_lt.mpr (Int.le_of_lt hgt)]

lemma compareSized_le_le (h0 : elements 0 = some .eq) (h : size ≤ 0) (h' : size' ≤ 0) :
    compareSized size size' elements = some (sizeOrder size size') := by
  by_cases hs : size = 0
  · by_cases hs' : size' = 0
    · subst hs hs'
      rfl
    · simp [compareSized, sizeOrder, hs, hs']
      rfl
  · by_cases hs' : size' = 0
    · simp [compareSized, sizeOrder, hs, hs']
      rfl
    · have hmin : (min size size').toNat = 0 := by omega
      rw [compareSized_of_ne hs hs' (by rw [hmin, h0]), sizeOrder, if_neg hs, if_neg hs']
      rfl

lemma compareSized_le_pos (h0 : elements 0 = some .eq) (h : size ≤ 0) (h' : 0 < size') :
    compareSized size size' elements = some .lt := by
  have hs' : size' ≠ 0 := by omega
  by_cases hs : size = 0
  · simp [compareSized, hs, hs']
  · have hmin : (min size size').toNat = 0 := by omega
    rw [compareSized_of_ne hs hs' (by rw [hmin, h0]), Int.compare_eq_lt.mpr (by omega)]

lemma compareSized_pos_le (h0 : elements 0 = some .eq) (h : 0 < size) (h' : size' ≤ 0) :
    compareSized size size' elements = some .gt := by
  have hs : size ≠ 0 := by omega
  by_cases hs' : size' = 0
  · simp [compareSized, hs, hs']
  · have hmin : (min size size').toNat = 0 := by omega
    rw [compareSized_of_ne hs hs' (by rw [hmin, h0]), Int.compare_eq_gt.mpr (by omega)]

/-- Positive sizes: the elements that they count, and then the sizes. -/
lemma compareSized_pos_pos (h : 0 < size) (h' : 0 < size') :
    compareSized size size' elements =
      match elements (min size.toNat size'.toNat) with
      | some .eq => some (Ord.compare size.toNat size'.toNat)
      | o => o := by
  have hmin : (min size size').toNat = min size.toNat size'.toNat := by omega
  rw [← hmin]
  cases helements : elements (min size size').toNat with
  | none => simp [compareSized, helements, Int.ne_of_gt h, Int.ne_of_gt h']
  | some o =>
    cases o with
    | eq =>
      rw [compareSized_of_ne (by omega) (by omega) helements]
      have hcast : Ord.compare size size' = Ord.compare size.toNat size'.toNat := by
        rw [← compare_natCast, Int.toNat_of_nonneg (Int.le_of_lt h), Int.toNat_of_nonneg (Int.le_of_lt h')]
      rw [hcast]
    | lt => simp [compareSized, helements, Int.ne_of_gt h, Int.ne_of_gt h']
    | gt => simp [compareSized, helements, Int.ne_of_gt h, Int.ne_of_gt h']

end Sizes

/-! ### Lists and terms -/

lemma elementsVerdict_take {n k : Nat} {l m : List YCPValue} (hn : n ≤ l.length) (hk : k ≤ m.length) :
    elementsVerdict (l.take n) (m.take k) =
      match compareElements (min n k) l m with
      | some .eq => some (Ord.compare n k)
      | o => o := by
  rw [elementsVerdict, List.length_take, List.length_take, Nat.min_eq_left hn, Nat.min_eq_left hk,
    compareElements_take (Nat.min_le_left n k) (Nat.min_le_right n k)]

/-- What the comparison of two lists answers, given that of their elements. -/
lemma compareSized_keyAt {l m : List YCPValue} {size size' : Int} (hsize : size ≤ l.length)
    (hsize' : size' ≤ m.length) (h : ∀ v ∈ l, ∀ w ∈ m, Agree wideKey (compare v w) (compare w v) v w)
    {o : Ordering} (ho : compareSized size size' (fun n => compareElements n l m) = some o)
    (hanswer : (compareSized size' size (fun n => compareElements n m l)).isSome = true) (r s : List Int) :
    lex (sizedKey size (wideElements size.toNat l) ++ r) (sizedKey size' (wideElements size'.toNat m) ++ s) =
      o.then (lex r s) := by
  have h0 (l m : List YCPValue) : compareElements 0 l m = some .eq := by rw [compareElements.eq_def]
  by_cases hpos : 0 < size
  · by_cases hpos' : 0 < size'
    · have hn : size.toNat ≤ l.length := by omega
      have hk : size'.toNat ≤ m.length := by omega
      rw [compareSized_pos_pos hpos hpos', ← elementsVerdict_take hn hk] at ho
      rw [compareSized_pos_pos hpos' hpos, ← elementsVerdict_take hk hn] at hanswer
      obtain ⟨o', ho'⟩ := Option.isSome_iff_exists.mp hanswer
      have hkey := (elements_agree (fun v hv w hw =>
        h v (List.mem_of_mem_take hv) w (List.mem_of_mem_take hw)) o o' ho ho').1
      rw [sizedKey_of_pos _ hpos, sizedKey_of_pos _ hpos', wideElements_eq, wideElements_eq, List.cons_append,
        List.cons_append, lex_cons_self, hkey]
    · rw [compareSized_pos_le (h0 l m) hpos (Int.not_lt.mp hpos')] at ho
      obtain rfl := Option.some.inj ho
      exact lex_sizedKey_pos_le _ _ hpos (Int.not_lt.mp hpos') r s
  · by_cases hpos' : 0 < size'
    · rw [compareSized_le_pos (h0 l m) (Int.not_lt.mp hpos) hpos'] at ho
      obtain rfl := Option.some.inj ho
      exact lex_sizedKey_le_pos _ _ (Int.not_lt.mp hpos) hpos' r s
    · rw [compareSized_le_le (h0 l m) (Int.not_lt.mp hpos) (Int.not_lt.mp hpos')] at ho
      obtain rfl := Option.some.inj ho
      exact lex_sizedKey_le_le _ _ (Int.not_lt.mp hpos) (Int.not_lt.mp hpos') r s

/-- The key of a list, without the type. -/
def listPart (l : List YCPValue) : List Int :=
  sizedKey (toInt32 l.length) (wideElements (toInt32 l.length).toNat l)

abbrev listAnswer (l m : List YCPValue) : Option Ordering :=
  compareList l.length m.length fun n => compareElements n l m

lemma list_agree {l m : List YCPValue}
    (h : ∀ v ∈ l, ∀ w ∈ m, Agree wideKey (compare v w) (compare w v) v w) :
    Agree listPart (listAnswer l m) (listAnswer m l) l m := by
  intro o o' ho ho'
  rw [listAnswer, compareList_eq_sized] at ho ho'
  constructor
  · intro r s
    exact compareSized_keyAt (toInt32_le _) (toInt32_le _) h ho (by rw [ho', Option.isSome_some]) r s
  · intro r s
    exact compareSized_keyAt (toInt32_le _) (toInt32_le _) (fun w hw v hv => (h v hv w hw).symm) ho'
      (by rw [ho, Option.isSome_some]) r s

/-- The key of a term, without the type. -/
def termPart (t : Text × List YCPValue) : List Int := textKey t.1 ++ listPart t.2

lemma term_agree (n n' : Text) {l m : List YCPValue}
    (h : ∀ v ∈ l, ∀ w ∈ m, Agree wideKey (compare v w) (compare w v) v w) :
    Agree termPart (compare (term n l) (term n' m)) (compare (term n' m) (term n l)) (n, l) (n', m) := by
  rw [compare_term, compare_term]
  by_cases hn : n = n'
  · subst hn
    rw [if_pos rfl, if_pos rfl]
    have hboth := (agree_of_keyAt (textKey_keyAt n n) (textKey_keyAt n n)).andThen (list_agree h)
    rw [(compareText_eq_iff n n).mpr rfl, andThen_eq, andThen_eq] at hboth
    exact hboth
  · have hname {a b : Text} (hab : a ≠ b) (l m : List YCPValue) :
        KeyAt termPart (if compareText a b = .lt then .lt else .gt) (a, l) (b, m) := by
      intro r s
      rw [termPart, termPart, List.append_assoc, List.append_assoc, textKey_keyAt a b]
      cases hc : compareText a b with
      | eq => exact absurd ((compareText_eq_iff a b).mp hc) hab
      | lt => rw [if_pos rfl, Ordering.lt_then, Ordering.lt_then]
      | gt => rw [if_neg (by decide), Ordering.gt_then, Ordering.gt_then]
    rw [if_neg hn, if_neg (Ne.symm hn)]
    exact agree_of_keyAt (hname hn l m) (hname (Ne.symm hn) m l)

/-! ### Maps -/

lemma compareEntries_cons (k v k' v' : YCPValue) (l m : List (YCPValue × YCPValue)) :
    compareEntries ((k, v) :: l) ((k', v') :: m) =
      andThen (compare k k') (andThen (compare v v') (compareEntries l m)) := by
  rw [compareEntries]
  cases compare k k' with
  | none => rfl
  | some o =>
    cases o with
    | eq =>
      cases compare v v' with
      | none => rfl
      | some o => cases o <;> rfl
    | lt => rfl
    | gt => rfl

lemma entries_agree {l m : List (YCPValue × YCPValue)}
    (h : ∀ e ∈ l, ∀ e' ∈ m, Agree wideKey (compare e.1 e'.1) (compare e'.1 e.1) e.1 e'.1 ∧
      Agree wideKey (compare e.2 e'.2) (compare e'.2 e.2) e.2 e'.2) :
    Agree wideEntries (compareEntries l m) (compareEntries m l) l m := by
  induction l generalizing m with
  | nil =>
    cases m with
    | nil =>
      have hnil : KeyAt wideEntries .eq [] [] := fun r s => Ordering.eq_then.symm
      exact agree_of_keyAt hnil hnil
    | cons e' m =>
      intro o o' ho
      simp [compareEntries] at ho
  | cons e l ih =>
    cases m with
    | nil =>
      intro o o' _ ho'
      simp [compareEntries] at ho'
    | cons e' m =>
      obtain ⟨k, v⟩ := e
      obtain ⟨k', v'⟩ := e'
      obtain ⟨hk, hv⟩ := h _ List.mem_cons_self _ List.mem_cons_self
      have htail := ih (m := m) fun e he e' he' =>
        h e (List.mem_cons_of_mem _ he) e' (List.mem_cons_of_mem _ he')
      rw [compareEntries_cons, compareEntries_cons]
      exact hk.andThen (hv.andThen htail)

/-- The key of a map, without the type. -/
def mapPart (m : List (YCPValue × YCPValue)) : List Int :=
  toInt32 m.length :: if toInt32 m.length = 0 then [] else wideEntries m

/-- `YCPMapRep::compare`, given the sizes. -/
def compareMapSized (size size' : Int) (entries : Option Ordering) : Option Ordering :=
  if size = 0 ∧ size' = 0 then some .eq
  else if size < size' then some .lt
  else if size' < size then some .gt
  else entries

lemma compareMap_eq_sized (a b : Nat) (entries : Option Ordering) :
    compareMap a b entries = compareMapSized (toInt32 a) (toInt32 b) entries := rfl

lemma compareMapSized_keyAt {l m : List (YCPValue × YCPValue)} {size size' : Int} {o : Ordering}
    (ho : compareMapSized size size' (compareEntries l m) = some o)
    (h : size = size' → size ≠ 0 → ∀ o, compareEntries l m = some o → KeyAt wideEntries o l m)
    (r s : List Int) :
    lex ((size :: if size = 0 then [] else wideEntries l) ++ r)
        ((size' :: if size' = 0 then [] else wideEntries m) ++ s) = o.then (lex r s) := by
  rw [List.cons_append, List.cons_append]
  rcases Int.lt_trichotomy size size' with hlt | heq | hgt
  · rw [compareMapSized, if_neg (by omega), if_pos hlt, Option.some.injEq] at ho
    subst ho
    exact lex_cons_of_lt hlt _ _
  · subst heq
    rw [lex_cons_self]
    by_cases h0 : size = 0
    · rw [compareMapSized, if_pos ⟨h0, h0⟩, Option.some.injEq] at ho
      subst ho
      rw [if_pos h0, if_pos h0, List.nil_append, List.nil_append, Ordering.eq_then]
    · rw [compareMapSized, if_neg (by omega), if_neg (by omega), if_neg (by omega)] at ho
      rw [if_neg h0, if_neg h0, h rfl h0 o ho]
  · rw [compareMapSized, if_neg (by omega), if_neg (by omega), if_pos hgt, Option.some.injEq] at ho
    subst ho
    exact lex_cons_of_gt hgt _ _

lemma compareMapSized_self {size : Int} (h : size ≠ 0) (entries : Option Ordering) :
    compareMapSized size size entries = entries := by
  rw [compareMapSized, if_neg (by omega), if_neg (by omega), if_neg (by omega)]

lemma map_agree {l m : List (YCPValue × YCPValue)}
    (h : ∀ e ∈ l, ∀ e' ∈ m, Agree wideKey (compare e.1 e'.1) (compare e'.1 e.1) e.1 e'.1 ∧
      Agree wideKey (compare e.2 e'.2) (compare e'.2 e.2) e.2 e'.2) :
    Agree mapPart (compareMap l.length m.length (compareEntries l m))
      (compareMap m.length l.length (compareEntries m l)) l m := by
  have hentries := entries_agree h
  intro o o' ho ho'
  rw [compareMap_eq_sized] at ho ho'
  constructor
  · refine compareMapSized_keyAt ho fun heq hne o₁ ho₁ => ?_
    rw [heq, compareMapSized_self (heq ▸ hne)] at ho'
    exact (hentries o₁ o' ho₁ ho').1
  · refine compareMapSized_keyAt ho' fun heq hne o₁ ho₁ => ?_
    rw [heq, compareMapSized_self (heq ▸ hne)] at ho
    exact (hentries o o₁ ho ho₁).2

/-! ### Paths -/

lemma comparePathLoop_of_take {n : Nat} {a b : List PathComponent} {o : Ordering}
    (h : comparePathLoop (a.take n) b = some o) : comparePathLoop a b = some o := by
  induction a generalizing n b with
  | nil => simp [comparePathLoop] at h
  | cons c a ih =>
    cases n with
    | zero => simp [comparePathLoop] at h
    | succ n =>
      rw [List.take_succ_cons] at h
      cases b with
      | nil => exact h
      | cons d b =>
        rw [comparePathLoop] at h ⊢
        cases hc : compareText c.component d.component with
        | eq =>
          rw [hc] at h
          exact ih h
        | lt => simpa [hc] using h
        | gt => simpa [hc] using h

/-- The key of a path, without the type. -/
def pathPart (p : List PathComponent) : List Int :=
  listKey (fun c : PathComponent => textKey c.component) p

lemma comparePath_keyAt {a b : List PathComponent} {o : Ordering} (h : comparePath a b = some o) :
    KeyAt pathPart o a b := by
  have hlex := comparePathLoop_eq a b
  have hkey := listKey_keyAt (fun a b : PathComponent => textKey_keyAt a.component b.component) a b
  rw [comparePath] at h
  cases hloop : comparePathLoop (a.take (2 ^ 32)) b with
  | some o₁ =>
    rw [hloop, Option.some.injEq] at h
    rw [comparePathLoop_of_take hloop, h] at hlex
    rwa [← hlex] at hkey
  | none =>
    rw [hloop] at h
    by_cases hlen : a.length < 2 ^ 32
    · rw [if_pos hlen, Option.some.injEq] at h
      rw [List.take_of_length_le (Nat.le_of_lt hlen)] at hloop
      rw [hloop, h] at hlex
      rwa [← hlex] at hkey
    · rw [if_neg hlen] at h
      cases h

/-! ### Values -/

lemma agree_tag {α : Type} {part : α → List Int} {answer answer' : Option Ordering} {a b : α}
    (h : Agree part answer answer' a b) (f : α → YCPValue) (x : Int) (hf : ∀ a, wideKey (f a) = x :: part a) :
    Agree wideKey answer answer' (f a) (f b) := h.tag x (hf a) (hf b)

lemma keyAt_of_valuetype_ne {v w : YCPValue} (h : v.valuetype ≠ w.valuetype) :
    KeyAt wideKey (if v.valuetype < w.valuetype then .lt else .gt) v w := by
  obtain ⟨t, ht⟩ := wideKey_head v
  obtain ⟨t', ht'⟩ := wideKey_head w
  intro r s
  rw [ht, ht', List.cons_append, List.cons_append]
  by_cases hlt : v.valuetype < w.valuetype
  · rw [if_pos hlt]
    exact lex_cons_of_lt (by omega) _ _
  · rw [if_neg hlt]
    exact lex_cons_of_gt (by omega) _ _

/-- Values of different types, and the null handle, whose comparison does not return. -/
lemma agree_of_valuetype_ne {v w : YCPValue} (hv : v.isNull = false) (h : w.valuetype ≠ v.valuetype) :
    Agree wideKey (compare v w) (compare w v) v w := by
  by_cases hw : w.isNull = true
  · intro o o' _ ho'
    rw [compare.eq_def, if_pos hw] at ho'
    cases ho'
  · rw [Bool.not_eq_true] at hw
    rw [compare_of_valuetype_ne hv hw (Ne.symm h), compare_of_valuetype_ne hw hv h]
    exact agree_of_keyAt (keyAt_of_valuetype_ne (Ne.symm h)) (keyAt_of_valuetype_ne h)

/-- The comparison of a data value with any value, where it answers both ways round, goes by the keys. -/
theorem compare_agree (v w : YCPValue) (hv : v.isData = true) :
    Agree wideKey (compare v w) (compare w v) v w := by
  induction v using induct generalizing w with
  | null => simp [isData] at hv
  | void =>
    by_cases h : w.valuetype = 0
    · cases w <;> simp [valuetype] at h
      have hself : KeyAt wideKey .eq void void := fun r s => lex_cons_self 0 r s
      exact agree_of_keyAt hself hself
    · exact agree_of_valuetype_ne rfl h
  | boolean b =>
    by_cases h : w.valuetype = 1
    · cases w <;> simp [valuetype] at h
      rename_i b'
      have hbool (a b : Bool) : KeyAt wideKey (Ord.compare a b) (boolean a) (boolean b) := by
        intro r s
        cases a <;> cases b <;> rfl
      exact agree_of_keyAt (hbool b b') (hbool b' b)
    · exact agree_of_valuetype_ne rfl h
  | integer i =>
    by_cases h : w.valuetype = 2
    · cases w <;> simp [valuetype] at h
      rename_i j
      exact agree_tag (agree_of_keyAt (keyAt_singleton Int64.toInt i j) (keyAt_singleton Int64.toInt j i))
        integer 2 fun _ => by rw [wideKey]
    · exact agree_of_valuetype_ne rfl h
  | string t =>
    by_cases h : w.valuetype = 4
    · cases w <;> simp [valuetype] at h
      rename_i t'
      exact agree_tag (agree_of_keyAt (textKey_keyAt t t') (textKey_keyAt t' t)) string 4
        fun _ => by rw [wideKey]
    · exact agree_of_valuetype_ne rfl h
  | byteblock b =>
    by_cases h : w.valuetype = 5
    · cases w <;> simp [valuetype] at h
      rename_i b'
      exact agree_of_keyAt (byteblock_keyAt b b') (byteblock_keyAt b' b)
    · exact agree_of_valuetype_ne rfl h
  | path p =>
    by_cases h : w.valuetype = 6
    · cases w <;> simp [valuetype] at h
      rename_i p'
      have hpath : Agree pathPart (comparePath p p') (comparePath p' p) p p' :=
        fun o o' ho ho' => ⟨comparePath_keyAt ho, comparePath_keyAt ho'⟩
      exact agree_tag hpath path 6 fun _ => by rw [wideKey, pathPart]
    · exact agree_of_valuetype_ne rfl h
  | symbol t =>
    by_cases h : w.valuetype = 7
    · cases w <;> simp [valuetype] at h
      rename_i t'
      exact agree_tag (agree_of_keyAt (textKey_keyAt t t') (textKey_keyAt t' t)) symbol 7
        fun _ => by rw [wideKey]
    · exact agree_of_valuetype_ne rfl h
  | list l ih =>
    by_cases h : w.valuetype = 8
    · cases w <;> simp [valuetype] at h
      rename_i m
      rw [isData, isDataList_iff] at hv
      rw [compare_list, compare_list]
      exact agree_tag (list_agree fun v hl w _ => ih v hl w (hv v hl)) list 8
        fun _ => by rw [wideKey, listPart]
    · exact agree_of_valuetype_ne rfl h
  | term n l ih =>
    by_cases h : w.valuetype = 9
    · cases w <;> simp [valuetype] at h
      rename_i n' m
      rw [isData, isDataList_iff] at hv
      exact agree_tag (term_agree n n' fun v hl w _ => ih v hl w (hv v hl)) (fun t => term t.1 t.2) 9
        fun _ => by rw [wideKey, termPart, listPart]
    · exact agree_of_valuetype_ne rfl h
  | map m ih =>
    by_cases h : w.valuetype = 10
    · cases w <;> simp [valuetype] at h
      rename_i m'
      rw [isData, isDataMap_iff] at hv
      rw [compare_map, compare_map]
      exact agree_tag (map_agree fun e he e' _ =>
        ⟨(ih e he).1 e'.1 (hv e he).2.1, (ih e he).2 e'.2 (hv e he).2.2⟩) map 10
        fun _ => by rw [wideKey, mapPart]
    · exact agree_of_valuetype_ne rfl h
  | code c => simp [isData] at hv
  | ret => simp [isData] at hv
  | brk => simp [isData] at hv
  | entry e => simp [isData] at hv
  | error => simp [isData] at hv
  | reference e => simp [isData] at hv

end YastCore.YCPValue
