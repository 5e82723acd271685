import Mathlib.Tactic.Common
import Mathlib.Order.Basic

/-!
# Bounded runs

What a program gives that is only run within a bound on its calls and turns. There are rules for what every
result fulfils, for two runs side by side, and for the answer that a run keeps from some bound on.
-/

namespace YastCore.Bounded

/-- The bound does not reach yet, there is a result, or the program does something undefined. -/
inductive Answer (α : Type) where
  | pending
  | gives (a : α)
  | undefined

variable {α β γ δ : Type}

namespace Answer

def bind (r : Answer α) (f : α → Answer β) : Answer β :=
  match r with
  | pending => pending
  | gives a => f a
  | undefined => undefined

instance : Monad Answer where
  pure := gives
  bind := bind

end Answer

open Answer

@[simp] lemma pure_eq (a : α) : (pure a : Answer α) = gives a := rfl

@[simp] lemma pending_bind (f : α → Answer β) : (pending : Answer α) >>= f = pending := rfl

@[simp] lemma gives_bind (a : α) (f : α → Answer β) : gives a >>= f = f a := rfl

@[simp] lemma undefined_bind (f : α → Answer β) : (undefined : Answer α) >>= f = undefined := rfl

lemma bind_gives_iff {r : Answer α} {f : α → Answer β} {b : β} :
    r >>= f = gives b ↔ ∃ a, r = gives a ∧ f a = gives b := by
  cases r <;> simp

/-! ### What every result fulfils -/

def Leads (P : α → Prop) (r : Answer α) : Prop := ∀ a, r = gives a → P a

variable {P : α → Prop} {Q : β → Prop} {r : Answer α} {f : α → Answer β}

lemma leads_pending : Leads P pending := by
  intro a h
  cases h

lemma leads_undefined : Leads P undefined := by
  intro a h
  cases h

lemma leads_gives {a : α} (h : P a) : Leads P (gives a) := by
  intro b hb
  cases hb
  exact h

lemma Leads.bind (h : Leads P r) (hf : ∀ a, P a → Leads Q (f a)) : Leads Q (r >>= f) := by
  intro b hb
  obtain ⟨a, ha, hfa⟩ := bind_gives_iff.mp hb
  exact hf a (h a ha) b hfa

lemma Leads.mono {P' : α → Prop} (h : Leads P r) (hP : ∀ a, P a → P' a) : Leads P' r := by
  intro a ha
  exact hP a (h a ha)

/-! ### Two runs side by side -/

/-- Both are pending, both are undefined, or the results are related. -/
inductive Related (R : α → β → Prop) : Answer α → Answer β → Prop where
  | pending : Related R pending pending
  | gives {a : α} {b : β} (h : R a b) : Related R (gives a) (gives b)
  | undefined : Related R undefined undefined

lemma Related.bind {R : α → β → Prop} {S : γ → δ → Prop} {r : Answer α} {r' : Answer β} {f : α → Answer γ}
    {f' : β → Answer δ} (h : Related R r r') (hf : ∀ a b, R a b → Related S (f a) (f' b)) :
    Related S (r >>= f) (r' >>= f') := by
  cases h with
  | pending => exact .pending
  | gives h => exact hf _ _ h
  | undefined => exact .undefined

lemma Related.mono {R R' : α → β → Prop} {r : Answer α} {r' : Answer β} (h : Related R r r')
    (hR : ∀ a b, R a b → R' a b) : Related R' r r' := by
  cases h with
  | pending => exact .pending
  | gives h => exact .gives (hR _ _ h)
  | undefined => exact .undefined

lemma Related.swap {R : α → β → Prop} {r : Answer α} {r' : Answer β} (h : Related R r r') :
    Related (fun b a => R a b) r' r := by
  cases h with
  | pending => exact .pending
  | gives h => exact .gives h
  | undefined => exact .undefined

lemma Related.ite {R : α → β → Prop} {r s : Answer α} {r' s' : Answer β} {p : Prop} [Decidable p]
    (h : p → Related R r r') (h' : ¬ p → Related R s s') : Related R (if p then r else s) (if p then r' else s') := by
  split
  next hp => exact h hp
  next hp => exact h' hp

lemma Related.exists_of_gives {R : α → β → Prop} {r' : Answer β} {a : α} (h : Related R (Answer.gives a) r') :
    ∃ b, r' = Answer.gives b ∧ R a b := by
  cases h with
  | gives h => exact ⟨_, rfl, h⟩

/-! ### A larger bound -/

/-- Both answers are the same, unless the first one is still pending. -/
def Extends (r r' : Answer α) : Prop := r = pending ∨ r' = r

lemma extends_pending (r : Answer α) : Extends pending r := .inl rfl

lemma Extends.refl (r : Answer α) : Extends r r := .inr rfl

lemma Extends.bind {r r' : Answer α} {f f' : α → Answer β} (h : Extends r r') (hf : ∀ a, Extends (f a) (f' a)) :
    Extends (r >>= f) (r' >>= f') := by
  rcases h with rfl | rfl
  · exact extends_pending _
  · cases r' with
    | pending => exact extends_pending _
    | gives a => exact hf a
    | undefined => exact Extends.refl _

lemma Extends.ite {r r' s s' : Answer α} {p : Prop} [Decidable p] (h : Extends r r') (h' : Extends s s') :
    Extends (if p then r else s) (if p then r' else s') := by
  split
  · exact h
  · exact h'

/-! ### The answer from some bound on -/

/-- From some bound on the run gives this answer, which is not that it is still going. -/
def Settles (r : ℕ → Answer α) (a : Answer α) : Prop := a ≠ pending ∧ ∃ n, ∀ m ≥ n, r m = a

/-- The run ends, whatever it gives. -/
def Ends (r : ℕ → Answer α) : Prop := ∃ a, Settles r a

variable {r : ℕ → Answer α} {f : ℕ → α → Answer β}

lemma gives_ne_pending (a : α) : gives a ≠ pending := by
  intro h
  cases h

lemma undefined_ne_pending : (undefined : Answer α) ≠ pending := by
  intro h
  cases h

lemma settles_const {a : Answer α} (h : a ≠ pending) : Settles (fun _ => a) a := ⟨h, 0, fun _ _ => rfl⟩

lemma settles_gives (a : α) : Settles (fun _ => gives a) (gives a) := settles_const (gives_ne_pending a)

lemma Settles.unique {a b : Answer α} (h : Settles r a) (h' : Settles r b) : a = b := by
  obtain ⟨-, n, hn⟩ := h
  obtain ⟨-, m, hm⟩ := h'
  rw [← hn (max n m) (Nat.le_max_left n m), hm (max n m) (Nat.le_max_right n m)]

/-- The answer is the same for runs that do not differ from some bound on. -/
lemma Settles.congr {r' : ℕ → Answer α} {a : Answer α} (h : Settles r a) (n : ℕ) (hr : ∀ m ≥ n, r' m = r m) :
    Settles r' a := by
  obtain ⟨hne, k, hk⟩ := h
  refine ⟨hne, max n k, fun m hm => ?_⟩
  have hn : n ≤ m := Nat.le_trans (Nat.le_max_left n k) hm
  have hk' : k ≤ m := Nat.le_trans (Nat.le_max_right n k) hm
  rw [hr m hn, hk m hk']

/-- One step more does not matter. -/
lemma Settles.shift {r' : ℕ → Answer α} {a : Answer α} (h : Settles r a) (hr : ∀ n, r' (n + 1) = r n) :
    Settles r' a := by
  obtain ⟨hne, n, hn⟩ := h
  refine ⟨hne, n + 1, fun m hm => ?_⟩
  obtain ⟨k, rfl⟩ := Nat.exists_eq_add_of_le hm
  have hadd : n + 1 + k = n + k + 1 := by omega
  rw [hadd, hr, hn (n + k) (Nat.le_add_right n k)]

lemma Settles.bind {a : α} {b : Answer β} (h : Settles r (gives a)) (hf : Settles (fun n => f n a) b) :
    Settles (fun n => r n >>= f n) b := by
  obtain ⟨-, n, hn⟩ := h
  refine hf.congr n fun m hm => ?_
  rw [hn m hm, gives_bind]

lemma Settles.bind_undefined (h : Settles r undefined) : Settles (fun n => r n >>= f n) undefined := by
  obtain ⟨hne, n, hn⟩ := h
  refine ⟨undefined_ne_pending, n, fun m hm => ?_⟩
  simp only [hn m hm, undefined_bind]

/-- Where a larger bound keeps what a smaller one gives, one bound is enough. -/
lemma settles_of_extends {n : ℕ} {a : α} (h : ∀ n, Extends (r n) (r (n + 1))) (hn : r n = gives a) :
    Settles r (gives a) := by
  refine ⟨gives_ne_pending a, n, fun m hm => ?_⟩
  induction hm with
  | refl => exact hn
  | @step m hm ih =>
    rcases h m with hpending | hsame
    · rw [ih] at hpending
      cases hpending
    · exact hsame.trans ih

lemma Ends.congr {r' : ℕ → Answer α} (h : Ends r) (n : ℕ) (hr : ∀ m ≥ n, r' m = r m) : Ends r' := by
  obtain ⟨a, ha⟩ := h
  exact ⟨a, ha.congr n hr⟩

lemma Ends.shift {r' : ℕ → Answer α} (h : Ends r) (hr : ∀ n, r' (n + 1) = r n) : Ends r' := by
  obtain ⟨a, ha⟩ := h
  exact ⟨a, ha.shift hr⟩

lemma ends_gives (a : α) : Ends fun _ => gives a := ⟨_, settles_gives a⟩

lemma ends_undefined : Ends fun _ => (undefined : Answer α) := ⟨_, settles_const undefined_ne_pending⟩

/-- A run ends if its first part does, and the rest does for what the first part gives. -/
lemma Ends.bind (h : Ends r) (hf : ∀ a, Settles r (gives a) → Ends fun n => f n a) :
    Ends fun n => r n >>= f n := by
  obtain ⟨b, hb⟩ := h
  cases b with
  | pending => exact absurd rfl hb.1
  | gives a =>
    obtain ⟨c, hc⟩ := hf a hb
    exact ⟨c, hb.bind hc⟩
  | undefined => exact ⟨_, hb.bind_undefined⟩

lemma not_ends_of_pending (h : ∀ n, r n = pending) : ¬ Ends r := by
  rintro ⟨a, hne, n, hn⟩
  exact hne ((hn n (Nat.le_refl n)).symm.trans (h n))

end YastCore.Bounded
