import Mathlib.Algebra.Group.Nat.Defs
import Mathlib.Data.List.Basic
import Mathlib.Tactic.Common
import YastCore.Lib.Exec

/-!
# Readers that undo writers

A reader takes symbols off the front of its input and may keep a state `τ` of its own beside it.
`Reads r t w a t'` says that from the state `t` it takes exactly `w`, whatever follows, and yields
`a` and the state `t'`; `Faults` says that it gives up somewhere inside `w`.
-/

namespace YastCore.Codec

variable {ε β τ α γ : Type}

/-- A reader of symbols of type `β` with faults `ε` and its own state `τ`. -/
abbrev Reader (ε β τ α : Type) := Exec ε (List β × τ) α

def Reads (r : Reader ε β τ α) (t : τ) (w : List β) (a : α) (t' : τ) : Prop :=
  ∀ rest, r (w ++ rest, t) = .ok (a, (rest, t'))

def Faults (r : Reader ε β τ α) (t : τ) (w : List β) : Prop :=
  ∀ rest, ∃ e, r (w ++ rest, t) = .error e

lemma Reads.pure (a : α) (t : τ) : Reads (pure a : Reader ε β τ α) t [] a t :=
  fun _ => rfl

lemma Reads.throw_faults (e : ε) (t : τ) (w : List β) :
    Faults (throw e : Reader ε β τ α) t w :=
  fun _ => ⟨e, rfl⟩

lemma Reads.bind {r : Reader ε β τ α} {f : α → Reader ε β τ γ} {t t' t'' : τ} {w w' : List β}
    {a : α} {c : γ} (h : Reads r t w a t') (h' : Reads (f a) t' w' c t'') :
    Reads (r >>= f) t (w ++ w') c t'' := by
  intro rest
  rw [List.append_assoc, Exec.bind_of_ok (h _)]
  exact h' rest

/-- A reader that takes nothing more after `r`. -/
lemma Reads.bind_nil {r : Reader ε β τ α} {f : α → Reader ε β τ γ} {t t' t'' : τ} {w : List β}
    {a : α} {c : γ} (h : Reads r t w a t') (h' : Reads (f a) t' [] c t'') :
    Reads (r >>= f) t w c t'' := by
  have h'' := h.bind h'
  rwa [List.append_nil] at h''

lemma Faults.bind {r : Reader ε β τ α} {t : τ} {w : List β} (h : Faults r t w)
    (f : α → Reader ε β τ γ) (w' : List β) : Faults (r >>= f) t (w ++ w') := by
  intro rest
  obtain ⟨e, he⟩ := h (w' ++ rest)
  refine ⟨e, ?_⟩
  rw [List.append_assoc]
  exact Exec.bind_of_error he

lemma Faults.bind_nil {r : Reader ε β τ α} {t : τ} {w : List β} (h : Faults r t w)
    (f : α → Reader ε β τ γ) : Faults (r >>= f) t w := by
  have h' := h.bind f []
  rwa [List.append_nil] at h'

lemma Reads.bind_faults {r : Reader ε β τ α} {f : α → Reader ε β τ γ} {t t' : τ}
    {w w' : List β} {a : α} (h : Reads r t w a t') (h' : Faults (f a) t' w') :
    Faults (r >>= f) t (w ++ w') := by
  intro rest
  obtain ⟨e, he⟩ := h' rest
  refine ⟨e, ?_⟩
  rw [List.append_assoc, Exec.bind_of_ok (h _)]
  exact he

lemma Reads.unique {r : Reader ε β τ α} {t t' t'' : τ} {w : List β} {a b : α}
    (h : Reads r t w a t') (h' : Reads r t w b t'') : a = b ∧ t' = t'' := by
  have heq := (h []).symm.trans (h' [])
  simpa using heq

lemma Faults.not_reads {r : Reader ε β τ α} {t t' : τ} {w : List β} {a : α}
    (h : Faults r t w) : ¬ Reads r t w a t' := by
  intro h'
  obtain ⟨e, he⟩ := h []
  rw [h' []] at he
  cases he

/-! ### The state of the reader -/

def getState : Reader ε β τ τ := fun s => .ok (s.2, s)

def modifyState (f : τ → τ) : Reader ε β τ Unit := fun s => .ok ((), (s.1, f s.2))

lemma reads_getState (t : τ) : Reads (getState : Reader ε β τ τ) t [] t t :=
  fun _ => rfl

lemma reads_modifyState (f : τ → τ) (t : τ) :
    Reads (modifyState f : Reader ε β τ Unit) t [] () (f t) :=
  fun _ => rfl

/-! ### Symbols -/

/-- Take one symbol; `eof` is the fault at the end of the input. -/
def next (eof : ε) : Reader ε β τ β := fun s =>
  match s with
  | (b :: rest, t) => .ok (b, (rest, t))
  | ([], _) => .error eof

/-- Take `n` symbols. -/
def takeN (eof : ε) (n : Nat) : Reader ε β τ (List β) := fun s =>
  if n ≤ s.1.length then .ok (s.1.take n, (s.1.drop n, s.2)) else .error eof

lemma reads_next (eof : ε) (b : β) (t : τ) : Reads (next eof) t [b] b t :=
  fun _ => rfl

lemma reads_takeN (eof : ε) {n : Nat} {w : List β} (h : w.length = n) (t : τ) :
    Reads (takeN eof n) t w w t := by
  intro rest
  subst h
  simp [takeN]

/-! ### Counted loops -/

/-- `for (index = i; index < i + n; index++) a = step (index, a);` -/
def countedLoop (step : Nat → α → Reader ε β τ α) : Nat → Nat → α → Reader ε β τ α
  | _, 0, a => pure a
  | i, n + 1, a => do
    let a' ← step i a
    countedLoop step (i + 1) n a'

/-- What a counted loop makes of the items it reads. -/
def foldIdx (upd : Nat → α → γ → α) : Nat → List γ → α → α
  | _, [], a => a
  | i, x :: xs, a => foldIdx upd (i + 1) xs (upd i a x)

/-! ### Readers that succeed on a condition -/

/-- On the symbols `w` the reader yields `a` and the state `t'` when `good` holds, and faults when it
does not. -/
structure Decides (r : Reader ε β τ α) (t : τ) (w : List β) (good : Prop) (a : α) (t' : τ) : Prop where
  reads : good → Reads r t w a t'
  faults : ¬ good → Faults r t w

lemma Reads.decides {r : Reader ε β τ α} {t t' : τ} {w : List β} {a : α} (h : Reads r t w a t') :
    Decides r t w True a t' :=
  ⟨fun _ => h, fun hn => absurd trivial hn⟩

lemma Decides.congr {r : Reader ε β τ α} {t t' : τ} {w : List β} {good good' : Prop} {a : α}
    (h : Decides r t w good a t') (hiff : good ↔ good') : Decides r t w good' a t' := by
  rwa [← propext hiff]

lemma Decides.bind {r : Reader ε β τ α} {f : α → Reader ε β τ γ} {t t' t'' : τ} {w w' : List β}
    {good good' : Prop} {a : α} {c : γ} (h : Decides r t w good a t')
    (h' : Decides (f a) t' w' good' c t'') :
    Decides (r >>= f) t (w ++ w') (good ∧ good') c t'' := by
  refine ⟨fun hg => (h.reads hg.1).bind (h'.reads hg.2), fun hg => ?_⟩
  by_cases hgood : good
  · exact (h.reads hgood).bind_faults (h'.faults fun hg' => hg ⟨hgood, hg'⟩)
  · exact (h.faults hgood).bind _ _

lemma Reads.bind_decides {r : Reader ε β τ α} {f : α → Reader ε β τ γ} {t t' t'' : τ}
    {w w' : List β} {good : Prop} {a : α} {c : γ} (h : Reads r t w a t')
    (h' : Decides (f a) t' w' good c t'') : Decides (r >>= f) t (w ++ w') good c t'' :=
  ⟨fun hg => h.bind (h'.reads hg), fun hg => h.bind_faults (h'.faults hg)⟩

/-- A first step that takes nothing. -/
lemma Reads.bind_decides_nil {r : Reader ε β τ α} {f : α → Reader ε β τ γ} {t t' t'' : τ}
    {w : List β} {good : Prop} {a : α} {c : γ} (h : Reads r t [] a t')
    (h' : Decides (f a) t' w good c t'') : Decides (r >>= f) t w good c t'' :=
  h.bind_decides h'

/-- A last step that takes nothing and does not fault. -/
lemma Decides.map {r : Reader ε β τ α} {f : α → Reader ε β τ γ} {t t' t'' : τ} {w : List β}
    {good : Prop} {a : α} {c : γ} (h : Decides r t w good a t') (h' : Reads (f a) t' [] c t'') :
    Decides (r >>= f) t w good c t'' := by
  have h'' := h.bind h'.decides
  rw [List.append_nil] at h''
  exact h''.congr (by simp)

lemma decides_guard {p : Prop} [Decidable p] {r : Reader ε β τ α} {e : ε} {t t' : τ} {w : List β}
    {good : Prop} {a : α} (h : p → Decides r t w good a t') :
    Decides (if p then r else throw e) t w (p ∧ good) a t' := by
  by_cases hp : p
  · rw [if_pos hp]
    exact (h hp).congr (by simp [hp])
  · rw [if_neg hp]
    exact ⟨fun hg => absurd hg.1 hp, fun _ => Reads.throw_faults _ _ _⟩

/-- A counted loop succeeds when every item it reads is good. -/
lemma decides_countedLoop {step : Nat → α → Reader ε β τ α} {enc : γ → List β}
    {upd : Nat → α → γ → α} {good : γ → Prop} {t : τ} {items : List γ}
    (h : ∀ x ∈ items, ∀ i a, Decides (step i a) t (enc x) (good x) (upd i a x) t)
    (i : Nat) (a : α) :
    Decides (countedLoop step i items.length a) t (items.flatMap enc) (∀ x ∈ items, good x)
      (foldIdx upd i items a) t := by
  induction items generalizing i a with
  | nil => exact (Reads.pure a t).decides.congr (by simp)
  | cons x xs ih =>
    rw [List.flatMap_cons]
    refine ((h x List.mem_cons_self i a).bind ?_).congr (List.forall_mem_cons).symm
    exact ih (fun y hy => h y (List.mem_cons_of_mem _ hy)) (i + 1) (upd i a x)

/-- A counted loop that only changes the state. -/
lemma reads_countedLoop {step : Nat → α → Reader ε β τ α} {enc : γ → List β} {next : τ → γ → τ}
    {a : α} {items : List γ} (h : ∀ x ∈ items, ∀ i t, Reads (step i a) t (enc x) a (next t x))
    (i : Nat) (t : τ) :
    Reads (countedLoop step i items.length a) t (items.flatMap enc) a (items.foldl next t) := by
  induction items generalizing i t with
  | nil => exact Reads.pure a t
  | cons x xs ih =>
    rw [List.flatMap_cons]
    refine (h x List.mem_cons_self i t).bind ?_
    exact ih (fun y hy => h y (List.mem_cons_of_mem _ hy)) (i + 1) (next t x)

lemma length_le_flatMap {f : γ → List β} {items : List γ} {x : γ} (h : x ∈ items) :
    (f x).length ≤ (items.flatMap f).length := by
  rw [List.flatMap_def]
  exact (List.sublist_flatten_of_mem (List.mem_map_of_mem h)).length_le

/-! ### Little-endian numbers -/

/-- The `k` bytes of `n`, least significant first. -/
def leBytes : Nat → Nat → List UInt8
  | 0, _ => []
  | k + 1, n => UInt8.ofNat n :: leBytes k (n / 256)

def leNat : List UInt8 → Nat
  | [] => 0
  | b :: bs => b.toNat + 256 * leNat bs

@[simp] lemma length_leBytes (k n : Nat) : (leBytes k n).length = k := by
  induction k generalizing n with
  | zero => rfl
  | succ k ih => simp [leBytes, ih]

lemma leNat_leBytes (k n : Nat) : leNat (leBytes k n) = n % 256 ^ k := by
  induction k generalizing n with
  | zero => simp [leBytes, leNat, Nat.mod_one]
  | succ k ih =>
    have hbyte : (UInt8.ofNat n).toNat = n % 256 := UInt8.toNat_ofNat'
    rw [leBytes, leNat, ih, hbyte, Nat.pow_add_one', Nat.mod_mul]

lemma leNat_lt (l : List UInt8) : leNat l < 256 ^ l.length := by
  induction l with
  | nil => simp [leNat]
  | cons b l ih =>
    have hb := b.toNat_lt
    rw [leNat, List.length_cons, Nat.pow_succ]
    omega

lemma yields_takeN (eof : ε) (n : Nat) :
    Exec.Yields (takeN eof n : Reader ε β τ (List β)) fun w => w.length = n := by
  intro s w s' h
  simp only [takeN] at h
  split at h
  next hle =>
    obtain ⟨rfl, -⟩ := Prod.mk.inj (Except.ok.inj h)
    rw [List.length_take]
    omega
  next => cases h

/-- A measure of the result that every round of a counted loop raises by one at most. -/
lemma yields_countedLoop {step : Nat → α → Reader ε β τ α} {size : α → Nat}
    (h : ∀ i a, Exec.Yields (step i a) fun a' => size a' ≤ size a + 1) (i n : Nat) (a : α) :
    Exec.Yields (countedLoop step i n a) fun a' => size a' ≤ size a + n := by
  induction n generalizing i a with
  | zero => exact .pure (by omega)
  | succ n ih =>
    refine (h i a).bind fun a₁ h₁ => (ih (i + 1) a₁).mono fun a₂ h₂ => ?_
    omega

end YastCore.Codec
