import YastCore.Value.Bracket
import YastCore.Value.RoundTrip
import YastCore.Value.Sharing

/-!
# Bracket assignments on handles

`YSBracket::commit` as a program on handles: the copies that it makes leave the value of every handle of
its caller as it was.
-/

namespace YastCore.Handles

open YCPValue RefHeap

/-! ### The program -/

/-- The fetch of an element into handle `n + 2`; the element of a term is one of its list. -/
def fetchElement (current : YCPValue) (n i : ℕ) : List Op :=
  match current with
  | term _ _ => [.fetch (n + 1) n 0, .fetch (n + 2) (n + 1) i]
  | _ => [.fetch (n + 2) n i]

def addElement (current : YCPValue) (n value : ℕ) : Op :=
  match current with
  | term _ _ => .termAdd n value
  | _ => .listAdd n value

def setElement (current : YCPValue) (n : ℕ) (i : Int) (value : ℕ) : Op :=
  match current with
  | term _ _ => .termSet n i value
  | _ => .listSet n i value

/-- The loop of `set` that fills the gap. -/
def padOps (current : YCPValue) (n : ℕ) : ℕ → List Op
  | 0 => []
  | k + 1 => .atom (n + 1) void :: addElement current n (n + 1) :: padOps current n k

/-- The loop of `YCPMapRep::functionalAdd`, from entry `i` on. -/
def copyOps (n : ℕ) : ℕ → List (YCPValue × YCPValue) → List Op
  | _, [] => []
  | i, e :: m => .fetch (n + 2) n i :: .atom (n + 3) e.1 :: .mapAdd (n + 1) (n + 3) (n + 2) :: copyOps n (i + 1) m

/-- `YSBracket::commit` with its locals in the handles from `n` on, where `src` is the container and
`value` what is assigned. The result is in `n`. -/
def commitOps (current : YCPValue) (arg : List YCPValue) (src value n : ℕ) : List Op :=
  match arg with
  | [] => []
  | argval :: rest =>
    match elements current, argval with
    | some l, integer i =>
      .assign n src :: ((if rest.isEmpty then []
        else fetchElement current n i.toInt.toNat ++ commitOps (listValue l (narrow i)) rest (n + 2) value (n + 4)) ++
      (padOps current n (narrow i + 1 - listSize l).toNat ++
        [setElement current n (narrow i) (if rest.isEmpty then value else n + 4)]))
    | some _, _ => []
    | none, _ =>
      match current with
      | map m =>
        .assign n src :: ((if rest.isEmpty then []
          else .fetch (n + 2) n (m.findIdx fun e => !keyLess e.1 argval && !keyLess argval e.1) ::
            commitOps (mapValue m argval) rest (n + 2) value (n + 4)) ++
        (.newMap (n + 1) :: (copyOps n 0 m ++
          [.atom (n + 3) argval, .mapAdd (n + 1) (n + 3) (if rest.isEmpty then value else n + 4),
            .assign n (n + 1)])))
      | _ => []

/-! ### Running it on values -/

/-- A run that leaves the handles below `n` alone. -/
structure Runs (n : ℕ) (env : List YCPValue) (ops : List Op) (env' : List YCPValue) : Prop where
  run : valueRun env ops = some env'
  length : env'.length = env.length
  frame : ∀ k < n, env'[k]? = env[k]?

section

variable {n k i : ℕ} {env env' env₁ env₂ : List YCPValue} {ops ops' : List Op} {current v : YCPValue}
  {l : List YCPValue}

lemma valueRun_append (env : List YCPValue) (ops ops' : List Op) :
    valueRun env (ops ++ ops') = (valueRun env ops).bind fun env => valueRun env ops' := by
  induction ops generalizing env with
  | nil => rfl
  | cons op ops ih =>
    rw [List.cons_append, valueRun, valueRun]
    cases h : valueStep env op with
    | none => rfl
    | some env₁ => exact ih env₁

lemma Runs.nil : Runs n env [] env := ⟨rfl, rfl, fun _ _ => rfl⟩

lemma Runs.append (h : Runs n env ops env₁) (h' : Runs n env₁ ops' env₂) : Runs n env (ops ++ ops') env₂ := by
  refine ⟨?_, h'.length.trans h.length, fun k hk => (h'.frame k hk).trans (h.frame k hk)⟩
  rw [valueRun_append, h.run]
  exact h'.run

lemma Runs.mono (h : Runs n env ops env') (hk : k ≤ n) : Runs k env ops env' :=
  ⟨h.run, h.length, fun j hj => h.frame j (by omega)⟩

/-- An operation that sets one handle. -/
lemma Runs.cons {op : Op} (hstep : valueStep env op = some (env.set k v)) (hk : n ≤ k)
    (h : Runs n (env.set k v) ops env') : Runs n env (op :: ops) env' := by
  refine ⟨?_, h.length.trans List.length_set, fun j hj => (h.frame j hj).trans ?_⟩
  · rw [valueRun, hstep]
    exact h.run
  · rw [List.getElem?_set_ne (by omega)]

lemma run_fetchElement (hl : elements current = some l) (hn : env[n]? = some current)
    (hlen : n + 4 ≤ env.length) (i : ℕ) :
    ∃ env', Runs (n + 1) env (fetchElement current n i) env' ∧ env'[n + 2]? = some (l.getD i null) := by
  cases current <;> simp only [elements, reduceCtorEq, Option.some.injEq] at hl
  case list l' =>
    subst hl
    refine ⟨_, Runs.cons (k := n + 2) (v := l'.getD i null) ?_ (by omega) Runs.nil, ?_⟩
    · rw [valueStep, hn]
      exact if_pos (by omega)
    · rw [List.getElem?_set_self (by omega)]
  case term name l' =>
    subst hl
    have hlist : (env.set (n + 1) (list l'))[n + 1]? = some (list l') := List.getElem?_set_self (by omega)
    refine ⟨_, Runs.cons (k := n + 1) (v := list l') ?_ (by omega)
      (Runs.cons (k := n + 2) (v := l'.getD i null) ?_ (by omega) Runs.nil), ?_⟩
    · rw [valueStep, hn]
      exact if_pos (by omega)
    · rw [valueStep, hlist]
      exact if_pos (by rw [List.length_set]; omega)
    · rw [List.getElem?_set_self (by rw [List.length_set]; omega)]

variable {l₀ : List YCPValue}

lemma valueStep_addElement (hl : elements current = some l₀) (hn : env[n]? = some (withElements current l))
    (hk : env[k]? = some v) :
    valueStep env (addElement current n k) = some (env.set n (withElements current (l ++ [v]))) := by
  cases current <;> simp only [elements, reduceCtorEq] at hl
  all_goals
    simp only [withElements] at hn
    simp only [addElement, valueStep, hn, hk, withElements]

lemma valueStep_setElement (hl : elements current = some l₀) (hn : env[n]? = some (withElements current l))
    (hk : env[k]? = some v) (i : Int) :
    valueStep env (setElement current n i k) = some (env.set n (withElements current (listSet l i v))) := by
  cases current <;> simp only [elements, reduceCtorEq] at hl
  all_goals
    simp only [withElements] at hn
    simp only [setElement, valueStep, hn, hk, withElements]

lemma run_padOps (hl : elements current = some l₀) (hn : env[n]? = some (withElements current l))
    (hlen : n + 4 ≤ env.length) (k : ℕ) :
    ∃ env', Runs n env (padOps current n k) env' ∧
      env'[n]? = some (withElements current (l ++ List.replicate k void)) ∧
      ∀ j, n + 1 < j → env'[j]? = env[j]? := by
  induction k generalizing env l with
  | zero => exact ⟨env, Runs.nil, by rwa [List.replicate_zero, List.append_nil], fun _ _ => rfl⟩
  | succ k ih =>
    have hn' : (env.set (n + 1) void)[n]? = some (withElements current l) := by
      rwa [List.getElem?_set_ne (by omega)]
    have hvoid : (env.set (n + 1) void)[n + 1]? = some void := List.getElem?_set_self (by omega)
    have hadd := valueStep_addElement hl hn' hvoid
    have hset : ((env.set (n + 1) void).set n (withElements current (l ++ [void])))[n]? =
        some (withElements current (l ++ [void])) := List.getElem?_set_self (by rw [List.length_set]; omega)
    obtain ⟨env', hrun, hres, hrest⟩ := ih (l := l ++ [void]) hset (by rw [List.length_set, List.length_set]; omega)
    refine ⟨env', Runs.cons (k := n + 1) (v := void) ?_ (by omega) (Runs.cons hadd (by omega) hrun), ?_,
      fun j hj => ?_⟩
    · rw [valueStep]
      exact if_pos ⟨rfl, by omega⟩
    · rw [hres, List.replicate_succ, List.append_assoc, List.singleton_append]
    · rw [hrest j hj, List.getElem?_set_ne (by omega), List.getElem?_set_ne (by omega)]

variable {m : List (YCPValue × YCPValue)}

lemma mapAdd_of_isMapKey {k : YCPValue} (h : k.isMapKey = true) (m : List (YCPValue × YCPValue)) :
    mapAdd m k v = some (mapInsert k v m) := by
  rw [mapAdd, isNull_of_isMapKey h, if_neg Bool.false_ne_true, if_pos h]

/-- The entries that are copied one by one make up the map. -/
lemma run_copyOps {a rest : List (YCPValue × YCPValue)} (hordered : MapOrdered (a ++ rest))
    (hn : env[n]? = some (map (a ++ rest))) (hnew : env[n + 1]? = some (map a)) (hlen : n + 4 ≤ env.length) :
    ∃ env', Runs (n + 1) env (copyOps n a.length rest) env' ∧ env'[n + 1]? = some (map (a ++ rest)) ∧
      ∀ j, n + 3 < j → env'[j]? = env[j]? := by
  induction rest generalizing a env with
  | nil => exact ⟨env, Runs.nil, by rwa [List.append_nil], fun _ _ => rfl⟩
  | cons e rest ih =>
    have hkey : e.1.isMapKey = true := hordered.keys e (by simp)
    have hjoin : a ++ e :: rest = a ++ [e] ++ rest := by simp
    have hinsert : mapInsert e.1 e.2 a = a ++ [e] :=
      mapInsert_append e.2 fun e' he' =>
        (List.pairwise_append.mp hordered.increasing).2.2 e' he' e List.mem_cons_self
    generalize henv₁ : env.set (n + 2) e.2 = env₁
    generalize henv₂ : env₁.set (n + 3) e.1 = env₂
    have hlen₁ : env₁.length = env.length := by rw [← henv₁, List.length_set]
    have hlen₂ : env₂.length = env.length := by rw [← henv₂, List.length_set, hlen₁]
    have hfetch : valueStep env (.fetch (n + 2) n a.length) = some (env.set (n + 2) e.2) := by
      rw [valueStep, hn]
      simp only [fetchValue, Option.bind_eq_bind, Option.bind_some, List.getElem?_append_right (Nat.le_refl _),
        Nat.sub_self, List.getElem?_cons_zero, Option.map_some]
      exact if_pos (by omega)
    have hatom : valueStep env₁ (.atom (n + 3) e.1) = some (env₁.set (n + 3) e.1) := by
      rw [valueStep]
      exact if_pos ⟨isAtom_of_isMapKey hkey, by omega⟩
    have hmap : env₂[n + 1]? = some (map a) := by
      rw [← henv₂, List.getElem?_set_ne (by omega), ← henv₁, List.getElem?_set_ne (by omega), hnew]
    have hk : env₂[n + 3]? = some e.1 := by
      rw [← henv₂, List.getElem?_set_self (by omega)]
    have hv : env₂[n + 2]? = some e.2 := by
      rw [← henv₂, List.getElem?_set_ne (by omega), ← henv₁, List.getElem?_set_self (by omega)]
    have hadd : valueStep env₂ (.mapAdd (n + 1) (n + 3) (n + 2)) =
        some (env₂.set (n + 1) (map (a ++ [e]))) := by
      simp only [valueStep, hmap, hk, hv, mapAdd_of_isMapKey hkey, hinsert, Option.map_some]
    have hcopied : (env₂.set (n + 1) (map (a ++ [e])))[n + 1]? = some (map (a ++ [e])) :=
      List.getElem?_set_self (by omega)
    obtain ⟨env', hrun, hres, hrest⟩ := ih (a := a ++ [e])
      (by rwa [← hjoin])
      (by rw [List.getElem?_set_ne (by omega), ← henv₂, List.getElem?_set_ne (by omega), ← henv₁,
        List.getElem?_set_ne (by omega), hn, hjoin])
      hcopied (by rw [List.length_set]; omega)
    rw [List.length_append, List.length_singleton] at hrun
    refine ⟨env', ?_, by rw [hres, hjoin], fun j hj => ?_⟩
    · rw [copyOps]
      refine Runs.cons hfetch (by omega) ?_
      rw [henv₁]
      refine Runs.cons hatom (by omega) ?_
      rw [henv₂]
      exact Runs.cons hadd (by omega) hrun
    · rw [hrest j hj, List.getElem?_set_ne (by omega), ← henv₂, List.getElem?_set_ne (by omega), ← henv₁,
        List.getElem?_set_ne (by omega)]

end

/-! ### The assignment -/

/-- The maps on the way are ordered, as every `std::map` is. -/
def MapsOrdered : YCPValue → List YCPValue → Prop
  | _, [] => True
  | current, a :: rest => (∀ m, current = map m → MapOrdered m) ∧ MapsOrdered (bracketStep current a) rest

section

variable {n src w : ℕ} {env : List YCPValue} {current a value val r : YCPValue} {rest : List YCPValue}

/-- The elements behind the inner assignment. -/
lemma run_setElement {l m : List YCPValue} {i : Int} (hl : elements current = some l) (h0 : 0 ≤ i)
    (hset : repSet l i val = some m) (hn : env[n]? = some current) {k : ℕ} (hk : env[k]? = some val)
    (hne : k < n ∨ n + 1 < k) (hlen : n + 4 ≤ env.length) :
    ∃ env', Runs n env (padOps current n (i + 1 - listSize l).toNat ++ [setElement current n i k]) env' ∧
      env'[n]? = some (withElements current m) := by
  have hself : withElements current l = current := by
    cases current <;> simp only [elements, reduceCtorEq, Option.some.injEq] at hl
    all_goals rw [← hl]; rfl
  obtain ⟨env₁, hrun, hpad, hrest⟩ := run_padOps hl (hn.trans (congrArg some hself.symm)) hlen
    (i + 1 - listSize l).toNat
  obtain ⟨hlarge, rfl⟩ := repSet_eq_some h0 hset
  have hk₁ : env₁[k]? = some val := by
    rcases hne with hlt | hlt
    · rw [hrun.frame k hlt, hk]
    · rw [hrest k hlt, hk]
  have hstep := valueStep_setElement hl hpad hk₁ i
  have hle := listSize_le l
  have hin : i.toNat + 1 - (l ++ List.replicate (i + 1 - listSize l).toNat void).length = 0 := by
    rw [List.length_append, List.length_replicate]
    omega
  rw [listSet, if_neg (by omega), hin, List.replicate_zero, List.append_nil] at hstep
  refine ⟨_, hrun.append (Runs.cons hstep (by omega) Runs.nil), List.getElem?_set_self ?_⟩
  rw [hrun.length]
  omega

/-- The entries behind the inner assignment. -/
lemma run_setEntry {m : List (YCPValue × YCPValue)} (hordered : MapOrdered m) (ha : a.isMapKey = true)
    (hn : env[n]? = some (map m)) {k : ℕ} (hk : env[k]? = some val) (hne : k < n ∨ n + 3 < k)
    (hlen : n + 4 ≤ env.length) :
    ∃ env', Runs n env (.newMap (n + 1) :: (copyOps n 0 m ++
        [Op.atom (n + 3) a, .mapAdd (n + 1) (n + 3) k, .assign n (n + 1)])) env' ∧
      env'[n]? = some (map (mapInsert a val m)) := by
  have hnew : valueStep env (.newMap (n + 1)) = some (env.set (n + 1) (map [])) := by
    rw [valueStep]
    exact if_pos (by omega)
  obtain ⟨env₁, hrun, hmap, hrest⟩ := run_copyOps (a := []) (n := n) hordered
    (by rw [List.getElem?_set_ne (by omega), hn, List.nil_append])
    (List.getElem?_set_self (by omega)) (by rw [List.length_set]; omega)
  rw [List.nil_append] at hmap
  rw [List.length_nil] at hrun
  have hlen₁ : env₁.length = env.length := hrun.length.trans List.length_set
  have hk₁ : env₁[k]? = some val := by
    rcases hne with hlt | hlt
    · rw [hrun.frame k (by omega), List.getElem?_set_ne (by omega), hk]
    · rw [hrest k hlt, List.getElem?_set_ne (by omega), hk]
  have hatom : valueStep env₁ (.atom (n + 3) a) = some (env₁.set (n + 3) a) := by
    rw [valueStep]
    exact if_pos ⟨isAtom_of_isMapKey ha, by omega⟩
  generalize henv₂ : env₁.set (n + 3) a = env₂ at hatom
  have hlen₂ : env₂.length = env.length := by rw [← henv₂, List.length_set, hlen₁]
  have hadd : valueStep env₂ (.mapAdd (n + 1) (n + 3) k) = some (env₂.set (n + 1) (map (mapInsert a val m))) := by
    have hmap₂ : env₂[n + 1]? = some (map m) := by rw [← henv₂, List.getElem?_set_ne (by omega), hmap]
    have ha₂ : env₂[n + 3]? = some a := by rw [← henv₂, List.getElem?_set_self (by omega)]
    have hk₂ : env₂[k]? = some val := by rw [← henv₂, List.getElem?_set_ne (by omega), hk₁]
    simp only [valueStep, hmap₂, ha₂, hk₂, mapAdd_of_isMapKey ha, Option.map_some]
  generalize henv₃ : env₂.set (n + 1) (map (mapInsert a val m)) = env₃ at hadd
  have hlen₃ : env₃.length = env.length := by rw [← henv₃, List.length_set, hlen₂]
  have hassign : valueStep env₃ (.assign n (n + 1)) = some (env₃.set n (map (mapInsert a val m))) := by
    have hres : env₃[n + 1]? = some (map (mapInsert a val m)) := by
      rw [← henv₃, List.getElem?_set_self (by omega)]
    rw [valueStep, hres]
    exact if_pos (by omega)
  refine ⟨env₃.set n (map (mapInsert a val m)), Runs.cons hnew (by omega) ((hrun.mono (by omega)).append ?_),
    List.getElem?_set_self (by omega)⟩
  rw [← henv₂] at hatom
  refine Runs.cons hatom (by omega) ?_
  rw [henv₂]
  rw [← henv₃] at hadd
  refine Runs.cons hadd (by omega) ?_
  rw [henv₃]
  exact Runs.cons hassign (by omega) Runs.nil

lemma commitOps_element {l : List YCPValue} {i : Int64} (hl : elements current = some l) :
    commitOps current (integer i :: rest) src w n =
      .assign n src :: ((if rest.isEmpty then []
        else fetchElement current n i.toInt.toNat ++ commitOps (listValue l (narrow i)) rest (n + 2) w (n + 4)) ++
      (padOps current n (narrow i + 1 - listSize l).toNat ++
        [setElement current n (narrow i) (if rest.isEmpty then w else n + 4)])) := by
  conv_lhs => unfold commitOps
  simp only [hl]

lemma commitOps_map {m : List (YCPValue × YCPValue)} :
    commitOps (map m) (a :: rest) src w n =
      .assign n src :: ((if rest.isEmpty then []
        else [Op.fetch (n + 2) n (m.findIdx fun e => !keyLess e.1 a && !keyLess a e.1)] ++
          commitOps (mapValue m a) rest (n + 2) w (n + 4)) ++
      (.newMap (n + 1) :: (copyOps n 0 m ++
        [Op.atom (n + 3) a, .mapAdd (n + 1) (n + 3) (if rest.isEmpty then w else n + 4), .assign n (n + 1)]))) := by
  conv_lhs => unfold commitOps
  rfl

/-- The program computes what `bracketCommit` says, and keeps the handles of its caller. -/
theorem run_commitOps {arg : List YCPValue} (harg : arg ≠ []) (hin : InRange current arg)
    (hmaps : MapsOrdered current arg) (h : bracketCommit current arg value = some r) (hr : r.isNull = false)
    (hsrc : env[src]? = some current) (hw : env[w]? = some (stored value)) (hsrcn : src < n) (hwn : w < n)
    (hlen : n + 4 * arg.length ≤ env.length) :
    ∃ env', Runs n env (commitOps current arg src w n) env' ∧ env'[n]? = some r := by
  induction arg generalizing current src n env r with
  | nil => exact absurd rfl harg
  | cons a rest ih =>
    rw [List.length_cons] at hlen
    obtain ⟨val, hinner, hval, hstored⟩ := storedAt_of_bracketCommit hin h hr
    have hassign : valueStep env (.assign n src) = some (env.set n current) := by
      rw [valueStep, hsrc]
      exact if_pos (by omega)
    generalize henv₁ : env.set n current = env₁ at hassign
    have hlen₁ : env₁.length = env.length := by rw [← henv₁, List.length_set]
    have hn₁ : env₁[n]? = some current := by rw [← henv₁, List.getElem?_set_self (by omega)]
    have hw₁ : env₁[w]? = some (stored value) := by rw [← henv₁, List.getElem?_set_ne (by omega), hw]
    -- the inner assignment, after what it reads was fetched
    have hbelow : ∀ fetch : List Op, (rest ≠ [] → ∃ env₂, Runs (n + 1) env₁ fetch env₂ ∧
        env₂[n + 2]? = some (bracketStep current a)) →
        ∃ env₃, Runs (n + 1) env₁ (if rest.isEmpty then [] else
            fetch ++ commitOps (bracketStep current a) rest (n + 2) w (n + 4)) env₃ ∧
          env₃[if rest.isEmpty then w else n + 4]? = some val := by
      intro fetch hfetched
      rw [YCPValue.Inner] at hinner
      cases rest with
      | nil =>
        rw [if_pos rfl] at hinner
        exact ⟨env₁, Runs.nil, by rw [hinner]; exact hw₁⟩
      | cons b rest =>
        rw [if_neg (List.cons_ne_nil b rest)] at hinner
        obtain ⟨env₂, hfetch, hread⟩ := hfetched (List.cons_ne_nil b rest)
        have hlen₂ := hfetch.length
        obtain ⟨env₃, hrun, hres⟩ := ih (List.cons_ne_nil b rest) hin.2 hmaps.2 hinner hval
          (n := n + 4) hread
          (by rw [hfetch.frame w (by omega), hw₁]) (by omega) (by omega) (by omega)
        exact ⟨env₃, hfetch.append (hrun.mono (by omega)), hres⟩
    have hplace : (if rest.isEmpty then w else n + 4) < n ∨ n + 3 < if rest.isEmpty then w else n + 4 := by
      split <;> omega
    have hnotNull : rest ≠ [] → (bracketStep current a).isNull = false := fun hrest => by
      rw [YCPValue.Inner, if_neg hrest] at hinner
      exact notNull_of_inner hrest hval hinner
    cases hstored with
    | @element l m i hold hindex hset =>
      obtain ⟨h0, h31⟩ := hin.1 l i hold hindex
      have hstep : bracketStep current a = listValue l (narrow i) := by
        rw [hindex, bracketStep_elements hold, bracketElement_integer, narrow_eq h0 h31]
      obtain ⟨env₂, hfetch, hread⟩ := run_fetchElement hold hn₁ (by omega) i.toInt.toNat
      have helement : rest ≠ [] → env₂[n + 2]? = some (bracketStep current a) := by
        intro hrest
        have hnull := hnotNull hrest
        rw [hstep, narrow_eq h0 h31] at hnull ⊢
        by_cases hout : listSize l ≤ i.toInt
        · rw [listValue_of_outside (.inr hout)] at hnull
          cases hnull
        · rw [hread, listValue_of_lt h0 (by omega)]
      obtain ⟨env₃, hrun, hres⟩ := hbelow _ fun hrest => ⟨env₂, hfetch, helement hrest⟩
      have hn₃ : env₃[n]? = some current := by rw [hrun.frame n (by omega), hn₁]
      rw [narrow_eq h0 h31] at hset
      have hlen₃ := hrun.length
      obtain ⟨env', hrun', hres'⟩ := run_setElement hold h0 hset hn₃ hres (by omega) (by omega)
      refine ⟨env', ?_, hres'⟩
      rw [hindex, commitOps_element hold, ← hstep, narrow_eq h0 h31]
      refine Runs.cons (k := n) (v := current) (by rw [hassign, henv₁]) (by omega) ?_
      rw [henv₁]
      exact (hrun.mono (by omega)).append hrun'
    | @entry m hold hkey =>
      have hordered := hmaps.1 m hold
      subst hold
      have hstep : bracketStep (map m) a = mapValue m a := by
        unfold bracketStep
        rw [isNull_of_isMapKey hkey, if_neg Bool.false_ne_true]
      have hfetch : rest ≠ [] → ∃ env₂, Runs (n + 1) env₁
          [Op.fetch (n + 2) n (m.findIdx fun e => !keyLess e.1 a && !keyLess a e.1)] env₂ ∧
          env₂[n + 2]? = some (bracketStep (map m) a) := by
        intro hrest
        have hnull := hnotNull hrest
        rw [hstep, mapValue, List.find?_eq_getElem?_findIdx] at hnull ⊢
        cases hfind : m[m.findIdx fun e => !keyLess e.1 a && !keyLess a e.1]? with
        | none =>
          rw [hfind] at hnull
          cases hnull
        | some e =>
          refine ⟨_, Runs.cons (k := n + 2) (v := e.2) ?_ (by omega) Runs.nil, List.getElem?_set_self (by omega)⟩
          rw [valueStep, hn₁]
          simp only [Option.bind_eq_bind, Option.bind_some, fetchValue, hfind, Option.map_some]
          exact if_pos (by omega)
      obtain ⟨env₃, hrun, hres⟩ := hbelow _ hfetch
      have hn₃ : env₃[n]? = some (map m) := by rw [hrun.frame n (by omega), hn₁]
      have hlen₃ := hrun.length
      obtain ⟨env', hrun', hres'⟩ := run_setEntry hordered hkey hn₃ hres hplace (by omega)
      refine ⟨env', ?_, hres'⟩
      rw [commitOps_map, ← hstep]
      refine Runs.cons (k := n) (v := map m) (by rw [hassign, henv₁]) (by omega) ?_
      rw [henv₁]
      exact (hrun.mono (by omega)).append hrun'

lemma apart_addElement (hk : n ≠ w) : (addElement current n w).apart = true := by
  cases current <;> exact bne_iff_ne.mpr hk

lemma apart_setElement {i : Int} (hk : n ≠ w) : (setElement current n i w).apart = true := by
  cases current <;> exact Bool.or_eq_true_iff.mpr (.inr (bne_iff_ne.mpr hk))

lemma apart_padOps (k : ℕ) : ∀ op ∈ padOps current n k, op.apart = true := by
  induction k with
  | zero => simp [padOps]
  | succ k ih =>
    intro op hop
    rw [padOps, List.mem_cons, List.mem_cons] at hop
    rcases hop with rfl | rfl | hop
    · rfl
    · exact apart_addElement (by omega)
    · exact ih op hop

lemma apart_copyOps (m : List (YCPValue × YCPValue)) (i : ℕ) : ∀ op ∈ copyOps n i m, op.apart = true := by
  induction m generalizing i with
  | nil => simp [copyOps]
  | cons e m ih =>
    intro op hop
    rw [copyOps, List.mem_cons, List.mem_cons, List.mem_cons] at hop
    rcases hop with rfl | rfl | rfl | hop
    · rfl
    · rfl
    · exact bne_iff_ne.mpr (by omega)
    · exact ih (i + 1) op hop

lemma apart_fetchElement (i : ℕ) : ∀ op ∈ fetchElement current n i, op.apart = true := by
  cases current <;> simp [fetchElement, Op.apart]

/-- `commit` puts nothing into itself. -/
lemma apart_commitOps (arg : List YCPValue) (hwn : w < n) : ∀ op ∈ commitOps current arg src w n, op.apart = true := by
  induction arg generalizing current src n with
  | nil => simp [commitOps]
  | cons a rest ih =>
    have hplace : n ≠ if rest.isEmpty then w else n + 4 := by
      split <;> omega
    have hplace' : n + 1 ≠ if rest.isEmpty then w else n + 4 := by
      split <;> omega
    intro op hop
    unfold commitOps at hop
    split at hop
    · simp only [List.mem_cons, List.mem_append, List.mem_ite_nil_left, List.not_mem_nil, or_false] at hop
      rcases hop with rfl | ⟨-, hop | hop⟩ | hop | rfl
      · rfl
      · exact apart_fetchElement _ op hop
      · exact ih (by omega) op hop
      · exact apart_padOps _ op hop
      · exact apart_setElement hplace
    · cases hop
    · split at hop
      · simp only [List.mem_cons, List.mem_append, List.mem_ite_nil_left, List.not_mem_nil, or_false] at hop
        rcases hop with rfl | ⟨-, rfl | hop⟩ | rfl | hop | rfl | rfl | rfl
        · rfl
        · rfl
        · exact ih (by omega) op hop
        · rfl
        · exact apart_copyOps _ _ op hop
        · rfl
        · exact bne_iff_ne.mpr hplace'
        · rfl
      · cases hop

/-- What the caller of `commit` finds: the result in a handle of its own, and each other handle with the
value that it had. -/
theorem run_commitOps_refines {arg : List YCPValue} (harg : arg ≠ []) (hin : InRange current arg)
    (hmaps : MapsOrdered current arg) (h : bracketCommit current arg value = some r) (hr : r.isNull = false)
    {H : YHeap} (R : Refines H env) (hsrc : env[src]? = some current) (hw : env[w]? = some (stored value))
    (hsrcn : src < n) (hwn : w < n) (hlen : n + 4 * arg.length ≤ env.length) :
    ∃ H', run H (commitOps current arg src w n) = some H' ∧ Holds H' n r ∧
      ∀ k < n, ∀ v, Holds H' k v ↔ Holds H k v := by
  obtain ⟨env', hrun, hres⟩ := run_commitOps harg hin hmaps h hr hsrc hw hsrcn hwn hlen
  obtain ⟨H', hH, R'⟩ := run_refines R (apart_commitOps arg hwn) hrun.run
  refine ⟨H', hH, R'.get hres, fun k hk v => ?_⟩
  have hlt : k < env.length := by omega
  have henv : env[k]? = some env[k] := List.getElem?_eq_getElem hlt
  have henv' : env'[k]? = some env[k] := (hrun.frame k hk).trans henv
  constructor
  · intro hv
    rw [hv.unique (R'.get henv')]
    exact R.get henv
  · intro hv
    rw [hv.unique (R.get henv)]
    exact R'.get henv'

end

end YastCore.Handles

namespace YastCore.YCPValue

open Handles

/-- An assignment that yields a value is a lawful update where no list hides anything behind a size that
does not fit, and it leaves the values of all handles; one that yields nothing leaves the variable. -/
theorem bracketCommit_lawful_iff (current : YCPValue) (arg : List YCPValue) (value : YCPValue)
    (hcurrent : WellFormed current) (hmaps : MapsOrdered current arg) (harg : arg ≠ [])
    (hin : InRange current arg) :
    (∀ r, bracketCommit current arg value = some r → r.isNull = false →
      (Lawful current arg value r ↔ NothingHidden current arg) ∧
      ∀ (H : YHeap) (env : List YCPValue) (src w n : ℕ), Refines H env → env[src]? = some current →
        env[w]? = some (stored value) → src < n → w < n → n + 4 * arg.length ≤ env.length →
        ∃ H', run H (commitOps current arg src w n) = some H' ∧ Holds H' n r ∧
          ∀ k < n, ∀ v, Holds H' k v ↔ Holds H k v) ∧
      (bracketCommit current arg (stored value) = some null →
        bracketAssign current (list arg) value = some current) := by
  refine ⟨fun r h hr => ⟨lawful_iff hcurrent harg hin h hr, ?_⟩, fun h => ?_⟩
  · intro H env src w n R hsrc hw hsrcn hwn hlen
    exact run_commitOps_refines harg hin hmaps h hr R hsrc hw hsrcn hwn hlen
  · rw [bracketAssign, hcurrent.notNull, if_neg Bool.false_ne_true, h]
    rfl

/-- The second element of a list in a term. -/
theorem bracketCommit_lawful_nested :
    Lawful (term [97] [list [void, void]]) [integer 0, integer 1] (boolean true)
      (term [97] [list [void, boolean true]]) := by
  have hwell : WellFormed (term [97] [list [void, void]]) := by
    refine .term fun v hv => ?_
    rw [List.mem_singleton.mp hv]
    refine .list fun v hv => ?_
    rw [show v = void by simpa using hv]
    exact .plain rfl rfl
  have hsteps : bracketStep (term [97] [list [void, void]]) (integer 0) = list [void, void] := rfl
  have hmaps : MapsOrdered (term [97] [list [void, void]]) [integer 0, integer 1] := by
    refine ⟨fun m h => ?_, ?_⟩
    · cases h
    · rw [hsteps]
      refine ⟨fun m h => ?_, trivial⟩
      cases h
  have hin : InRange (term [97] [list [void, void]]) [integer 0, integer 1] := by
    refine ⟨fun l i _ hi => ?_, ?_⟩
    · cases hi
      decide
    · rw [hsteps]
      refine ⟨fun l i _ hi => ?_, trivial⟩
      cases hi
      decide
  have hnothing : NothingHidden (term [97] [list [void, void]]) [integer 0, integer 1] := by
    refine ⟨?_, ?_⟩
    · rintro l i - hi j - hlt
      cases hi
      rw [show (0 : Int64).toInt = 0 from rfl] at hlt
      omega
    · rw [hsteps]
      refine ⟨?_, trivial⟩
      rintro l i hl hi j hsize hlt
      cases hl
      cases hi
      rw [show listSize [void, void] = 2 by decide] at hsize
      rw [show (1 : Int64).toInt = 1 from rfl] at hlt
      omega
  exact (((bracketCommit_lawful_iff _ _ (boolean true) hwell hmaps (by simp) hin).1
    (term [97] [list [void, boolean true]]) rfl rfl).1).mpr hnothing

/-- A list of 2^31 elements: the first appears when the second is assigned. -/
theorem not_lawful_long :
    WellFormed (list (List.replicate (2 ^ 31) (boolean true))) ∧
      InRange (list (List.replicate (2 ^ 31) (boolean true))) [integer 1] ∧
      ∃ r, bracketCommit (list (List.replicate (2 ^ 31) (boolean true))) [integer 1] (boolean false) = some r ∧
        r.isNull = false ∧
        ¬ Lawful (list (List.replicate (2 ^ 31) (boolean true))) [integer 1] (boolean false) r := by
  have hwell : WellFormed (list (List.replicate (2 ^ 31) (boolean true))) := by
    refine .list fun v hv => ?_
    rw [List.eq_of_mem_replicate hv]
    exact .plain rfl rfl
  have hin : InRange (list (List.replicate (2 ^ 31) (boolean true))) [integer 1] := by
    refine ⟨fun l i _ hi => ?_, trivial⟩
    cases hi
    decide
  have hsize : listSize (List.replicate (2 ^ 31) (boolean true)) = -2 ^ 31 := by
    rw [listSize, List.length_replicate]
    decide
  have hone : narrow 1 = 1 := by decide
  have hcommit : bracketCommit (list (List.replicate (2 ^ 31) (boolean true))) [integer 1] (boolean false) =
      (repSet (List.replicate (2 ^ 31) (boolean true)) 1 (boolean false)).map list := by
    rw [bracketCommit_element rfl, hone]
    rfl
  obtain ⟨m, hm⟩ : ∃ m, repSet (List.replicate (2 ^ 31) (boolean true)) 1 (boolean false) = some m :=
    ⟨_, rfl⟩
  rw [hm] at hcommit
  refine ⟨hwell, hin, list m, hcommit, rfl, fun hlaw => ?_⟩
  have hnil := ((lawful_iff hwell (List.cons_ne_nil _ _) hin hcommit rfl).mp hlaw).1 _ 1 rfl rfl 0
    (by rw [hsize]; decide) (by decide) (boolean true) (List.getElem?_replicate_of_lt (by decide))
  cases hnil

end YastCore.YCPValue
