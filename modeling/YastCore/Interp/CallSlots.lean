import YastCore.Interp.State
import YastCore.Value.Compare
import Mathlib.Algebra.Group.Int.Defs
import Mathlib.Data.Finset.Basic
import Mathlib.Data.List.Find

/-!
# The slots of a call

`Y2YCPFunction` and `Y2StdioFunction` keep the parameters of a call in an array. The slots here are the
memory from the array on, so that a write behind its end can be seen.
-/

namespace YastCore.Interp

/-- `FunctionType::parameterCount`, an int. -/
def functionParameterCount : YType → Int
  | .functionT _ arguments _ => toInt32 arguments.length
  | _ => 0

/-- The type's parameter count, and the memory from `m_parameters` on. -/
structure CallSlots where
  parameterCount : Int
  m_parameters : ℕ → YCPValue

/-- What the outside asks of a function call. -/
inductive SlotRequest where
  | attachParameter (arg : YCPValue) (pos : Int)
  | appendParameter (arg : YCPValue)
  | finishParameters
  | reset

/-- The slots after a request, what it returned, and where it wrote. -/
structure SlotReply where
  slots : CallSlots
  result : Bool
  written : List ℕ

namespace CallSlots

/-- The length of the array, whose size is the count as a `uint`. -/
def size (s : CallSlots) : ℕ := (s.parameterCount % 2 ^ 32).toNat

/-- The positions of a loop from 0 up to the count. -/
def positions (s : CallSlots) : List ℕ := List.range s.parameterCount.toNat

/-- The array that the constructors make in this memory. -/
def new (parameterCount : Int) (memory : ℕ → YCPValue) : CallSlots where
  parameterCount := parameterCount
  m_parameters i := if i < (parameterCount % 2 ^ 32).toNat then .null else memory i

def write (s : CallSlots) (i : ℕ) (arg : YCPValue) : CallSlots :=
  { s with m_parameters := Function.update s.m_parameters i arg }

def attachParameter (s : CallSlots) (arg : YCPValue) (pos : Int) : SlotReply :=
  if pos < 0 ∨ s.parameterCount < pos then ⟨s, false, []⟩ else ⟨s.write pos.toNat arg, true, [pos.toNat]⟩

def appendParameter (s : CallSlots) (arg : YCPValue) : SlotReply :=
  if arg.isNull then ⟨s, false, []⟩
  else
    match s.positions.find? fun i => (s.m_parameters i).isNull with
    | some i => ⟨s.write i arg, true, [i]⟩
    | none => ⟨s, false, []⟩

def finishParameters (s : CallSlots) : SlotReply :=
  ⟨s, s.positions.all fun i => !(s.m_parameters i).isNull, []⟩

def reset (s : CallSlots) : SlotReply :=
  ⟨{ s with m_parameters := fun i => if i < s.parameterCount.toNat then .null else s.m_parameters i }, true,
    s.positions⟩

def handle (s : CallSlots) : SlotRequest → SlotReply
  | .attachParameter arg pos => s.attachParameter arg pos
  | .appendParameter arg => s.appendParameter arg
  | .finishParameters => s.finishParameters
  | .reset => s.reset

end CallSlots

/-- The constructor of `Y2YCPFunction`: the type is that of the entry. -/
def Y2YCPFunction (P : Program) (m_sentry : EntryRef) (memory : ℕ → YCPValue) : CallSlots :=
  .new (functionParameterCount (P.symbol m_sentry).type) memory

/-- The constructor of `Y2StdioFunction`. -/
def Y2StdioFunction (m_type : YType) (memory : ℕ → YCPValue) : CallSlots :=
  .new (functionParameterCount m_type) memory

/-! ### What the requests promise -/

/-- The slots that hold a value since the last reset. -/
def filledAfter (s : CallSlots) (filled : Finset ℕ) : SlotRequest → Finset ℕ
  | .attachParameter arg pos =>
    if !(s.attachParameter arg pos).result then filled
    else if arg.isNull then filled.erase pos.toNat else insert pos.toNat filled
  | .appendParameter arg =>
    if !(s.appendParameter arg).result then filled
    else
      match (List.range s.size).find? fun i => i ∉ filled with
      | some i => insert i filled
      | none => filled
  | .finishParameters => filled
  | .reset => ∅

/-- A position out of range, or a parameter when every slot is filled. -/
def Surplus (s : CallSlots) (filled : Finset ℕ) : SlotRequest → Prop
  | .attachParameter _ pos => pos < 0 ∨ (s.size : Int) ≤ pos
  | .appendParameter _ => ∀ i < s.size, i ∈ filled
  | .finishParameters => False
  | .reset => False

structure HandledRight (s : CallSlots) (filled : Finset ℕ) (request : SlotRequest) : Prop where
  inBounds : ∀ i ∈ (s.handle request).written, i < s.size
  rejects : Surplus s filled request →
    (s.handle request).result = false ∧ (s.handle request).written = [] ∧ (s.handle request).slots = s
  complete : request = .finishParameters →
    ((s.handle request).result = true ↔ ∀ i < s.size, i ∈ filled)

/-- Every request of the sequence is handled right. -/
def AllRight (s : CallSlots) (filled : Finset ℕ) : List SlotRequest → Prop
  | [] => True
  | request :: requests =>
    HandledRight s filled request ∧ AllRight (s.handle request).slots (filledAfter s filled request) requests

/-- No parameter is attached behind the last slot; and the count of the parameters fits into an int, or
the completeness is never asked for. -/
def Fitting (parameterCount : Int) (requests : List SlotRequest) : Prop :=
  if 0 ≤ parameterCount then ∀ arg, .attachParameter arg parameterCount ∉ requests
  else .finishParameters ∉ requests

section

variable {s : CallSlots} {filled : Finset ℕ} {request : SlotRequest} {requests : List SlotRequest}

namespace CallSlots

lemma size_of_nonneg (h : 0 ≤ s.parameterCount) (hint : s.parameterCount < 2 ^ 31) :
    s.size = s.parameterCount.toNat := by
  rw [size, Int.emod_eq_of_lt h (by omega)]

lemma size_pos_of_neg (h : s.parameterCount < 0) (hint : -2 ^ 31 ≤ s.parameterCount) : 0 < s.size := by
  unfold size
  omega

lemma positions_of_neg (h : s.parameterCount < 0) : s.positions = [] := by
  rw [positions, Int.toNat_of_nonpos h.le, List.range_zero]

lemma positions_eq (h : 0 ≤ s.parameterCount) (hint : s.parameterCount < 2 ^ 31) :
    s.positions = List.range s.size := by
  rw [positions, size_of_nonneg h hint]

@[simp] lemma write_parameterCount (i : ℕ) (arg : YCPValue) :
    (s.write i arg).parameterCount = s.parameterCount := rfl

@[simp] lemma write_size (i : ℕ) (arg : YCPValue) : (s.write i arg).size = s.size := rfl

@[simp] lemma write_self (i : ℕ) (arg : YCPValue) : (s.write i arg).m_parameters i = arg := by
  simp [write]

lemma write_of_ne {i j : ℕ} (h : j ≠ i) (arg : YCPValue) :
    (s.write i arg).m_parameters j = s.m_parameters j := by
  simp [write, h]

lemma handle_parameterCount (request : SlotRequest) :
    (s.handle request).slots.parameterCount = s.parameterCount := by
  cases request with
  | attachParameter arg pos =>
    rw [handle, attachParameter]
    split <;> rfl
  | appendParameter arg =>
    rw [handle, appendParameter]
    split
    · rfl
    · split <;> rfl
  | finishParameters => rfl
  | reset => rfl

end CallSlots

/-- The slots with a value are the filled ones. -/
def Tracks (s : CallSlots) (filled : Finset ℕ) : Prop :=
  ∀ i < s.size, i ∈ filled ↔ (s.m_parameters i).isNull = false

lemma tracks_new (parameterCount : Int) (memory : ℕ → YCPValue) : Tracks (.new parameterCount memory) ∅ := by
  intro i hi
  have hnull : (CallSlots.new parameterCount memory).m_parameters i = .null := if_pos hi
  rw [hnull]
  simp [YCPValue.isNull]

lemma Tracks.write (h : Tracks s filled) (i : ℕ) (arg : YCPValue) :
    Tracks (s.write i arg) (if arg.isNull then filled.erase i else insert i filled) := by
  intro j hj
  by_cases hji : j = i
  · subst hji
    rw [CallSlots.write_self]
    cases harg : arg.isNull with
    | true => simp
    | false => simp
  · rw [CallSlots.write_of_ne hji, ← h j hj]
    cases harg : arg.isNull with
    | true => simp [hji]
    | false => simp [hji]

lemma Tracks.find_eq (h : Tracks s filled) :
    ((List.range s.size).find? fun i => (s.m_parameters i).isNull) =
      (List.range s.size).find? fun i => i ∉ filled := by
  apply List.find?_congr
  intro i hi
  have hfilled := h i (List.mem_range.mp hi)
  cases hnull : (s.m_parameters i).isNull with
  | true => simp [hfilled, hnull]
  | false => simp [hfilled, hnull]

/-! ### One request -/

/-- A request that is refused and touches nothing is handled right. -/
lemma right_of_refused (hreq : request ≠ .finishParameters) (hreply : s.handle request = ⟨s, false, []⟩) :
    HandledRight s filled request where
  inBounds := by
    rw [hreply]
    intro i hi
    cases hi
  rejects := by
    intro _
    rw [hreply]
    exact ⟨rfl, rfl, rfl⟩
  complete := fun heq => absurd heq hreq

section

variable (h0 : 0 ≤ s.parameterCount) (hint : s.parameterCount < 2 ^ 31) (h : Tracks s filled)

include h0 hint

lemma right_attachParameter {arg : YCPValue} {pos : Int} (hpos : pos ≠ s.parameterCount) :
    HandledRight s filled (.attachParameter arg pos) where
  inBounds := by
    have hsize := CallSlots.size_of_nonneg h0 hint
    intro i hi
    simp only [CallSlots.handle, CallSlots.attachParameter] at hi
    split at hi
    · cases hi
    · next hrange =>
      obtain rfl := List.mem_singleton.mp hi
      omega
  rejects := by
    have hsize := CallSlots.size_of_nonneg h0 hint
    intro hsurplus
    have hout : pos < 0 ∨ s.parameterCount < pos := by
      rcases hsurplus with hneg | hbehind
      · exact Or.inl hneg
      · exact Or.inr (by omega)
    simp only [CallSlots.handle, CallSlots.attachParameter, if_pos hout, and_self]
  complete := by
    intro hreq
    cases hreq

lemma right_reset : HandledRight s filled .reset where
  inBounds := by
    intro i hi
    rw [CallSlots.handle, CallSlots.reset, CallSlots.positions_eq h0 hint] at hi
    exact List.mem_range.mp hi
  rejects := False.elim
  complete := by
    intro hreq
    cases hreq

lemma tracks_reset : Tracks s.reset.slots ∅ := by
  intro i hi
  have hlt : i < s.parameterCount.toNat := by
    rw [← CallSlots.size_of_nonneg h0 hint]
    exact hi
  have hnull : s.reset.slots.m_parameters i = .null := if_pos hlt
  rw [hnull]
  simp [YCPValue.isNull]

include h

lemma right_finishParameters : HandledRight s filled .finishParameters where
  inBounds := by
    intro i hi
    cases hi
  rejects := False.elim
  complete := by
    intro _
    rw [CallSlots.handle, CallSlots.finishParameters, CallSlots.positions_eq h0 hint, List.all_eq_true]
    constructor
    · intro hall i hi
      have hvalue := hall i (List.mem_range.mpr hi)
      exact (h i hi).mpr (by simpa using hvalue)
    · intro hall i hi
      have hvalue := (h i (List.mem_range.mp hi)).mp (hall i (List.mem_range.mp hi))
      simp [hvalue]

/-- The slot that takes a parameter is the first that is not filled. -/
lemma appendParameter_eq (arg : YCPValue) :
    s.appendParameter arg =
      if arg.isNull then ⟨s, false, []⟩
      else
        match (List.range s.size).find? fun i => i ∉ filled with
        | some i => ⟨s.write i arg, true, [i]⟩
        | none => ⟨s, false, []⟩ := by
  rw [CallSlots.appendParameter, CallSlots.positions_eq h0 hint, h.find_eq]

lemma right_appendParameter (arg : YCPValue) : HandledRight s filled (.appendParameter arg) := by
  have hreply := appendParameter_eq h0 hint h arg
  cases harg : arg.isNull with
  | true =>
    rw [harg, if_pos rfl] at hreply
    exact right_of_refused (by simp) hreply
  | false =>
    rw [harg, if_neg Bool.false_ne_true] at hreply
    cases hfind : (List.range s.size).find? fun i => i ∉ filled with
    | none =>
      rw [hfind] at hreply
      exact right_of_refused (by simp) hreply
    | some i =>
      rw [hfind] at hreply
      have hi : i < s.size := List.mem_range.mp (List.mem_of_find?_eq_some hfind)
      have hfree : i ∉ filled := by simpa using List.find?_some hfind
      refine ⟨?_, fun hsurplus => absurd (hsurplus i hi) hfree, fun hreq => by cases hreq⟩
      rw [CallSlots.handle, hreply]
      intro j hj
      rw [List.mem_singleton.mp hj]
      exact hi

lemma tracks_appendParameter (arg : YCPValue) :
    Tracks (s.appendParameter arg).slots (filledAfter s filled (.appendParameter arg)) := by
  have hreply := appendParameter_eq h0 hint h arg
  rw [filledAfter]
  cases harg : arg.isNull with
  | true =>
    rw [harg, if_pos rfl] at hreply
    rw [hreply]
    exact h
  | false =>
    rw [harg, if_neg Bool.false_ne_true] at hreply
    cases hfind : (List.range s.size).find? fun i => i ∉ filled with
    | none =>
      rw [hfind] at hreply
      rw [hreply]
      exact h
    | some i =>
      rw [hfind] at hreply
      rw [hreply]
      have hwrite := h.write i arg
      rw [harg] at hwrite
      exact hwrite

end

lemma tracks_attachParameter (h : Tracks s filled) (arg : YCPValue) (pos : Int) :
    Tracks (s.attachParameter arg pos).slots (filledAfter s filled (.attachParameter arg pos)) := by
  rw [filledAfter, CallSlots.attachParameter]
  split
  · exact h
  · exact h.write pos.toNat arg

/-- A request that does not attach behind the last slot is handled right, and the slots stay tracked. -/
lemma right_step (h0 : 0 ≤ s.parameterCount) (hint : s.parameterCount < 2 ^ 31) (h : Tracks s filled)
    (hreq : ∀ arg, request ≠ .attachParameter arg s.parameterCount) :
    HandledRight s filled request ∧ Tracks (s.handle request).slots (filledAfter s filled request) := by
  cases request with
  | attachParameter arg pos =>
    have hpos : pos ≠ s.parameterCount := fun heq => hreq arg (by rw [heq])
    exact ⟨right_attachParameter h0 hint hpos, tracks_attachParameter h arg pos⟩
  | appendParameter arg => exact ⟨right_appendParameter h0 hint h arg, tracks_appendParameter h0 hint h arg⟩
  | finishParameters => exact ⟨right_finishParameters h0 hint h, h⟩
  | reset => exact ⟨right_reset h0 hint, tracks_reset h0 hint⟩

lemma not_right_behind (h0 : 0 ≤ s.parameterCount) (hint : s.parameterCount < 2 ^ 31) (arg : YCPValue) :
    ¬ HandledRight s filled (.attachParameter arg s.parameterCount) := by
  intro hright
  have hsize := CallSlots.size_of_nonneg h0 hint
  have hin : ¬ (s.parameterCount < 0 ∨ s.parameterCount < s.parameterCount) := by omega
  have hbound := hright.inBounds s.parameterCount.toNat (by
    rw [CallSlots.handle, CallSlots.attachParameter, if_neg hin]
    exact List.mem_singleton.mpr rfl)
  omega

/-! ### A count that does not fit -/

/-- Nothing is ever filled. -/
lemma idle_step (hneg : s.parameterCount < 0) (request : SlotRequest) :
    (s.handle request).slots.parameterCount = s.parameterCount ∧ filledAfter s ∅ request = ∅ ∧
      (request ≠ .finishParameters → HandledRight s ∅ request) := by
  refine ⟨s.handle_parameterCount request, ?_, ?_⟩
  · cases request with
    | attachParameter arg pos =>
      have hout : pos < 0 ∨ s.parameterCount < pos := by omega
      simp [filledAfter, CallSlots.attachParameter, hout]
    | appendParameter arg =>
      have hnone : (s.appendParameter arg).result = false := by
        rw [CallSlots.appendParameter, CallSlots.positions_of_neg hneg]
        split <;> rfl
      simp [filledAfter, hnone]
    | finishParameters => rfl
    | reset => rfl
  · intro hreq
    cases request with
    | attachParameter arg pos =>
      have hout : pos < 0 ∨ s.parameterCount < pos := by omega
      have hreply : s.attachParameter arg pos = ⟨s, false, []⟩ := if_pos hout
      exact right_of_refused hreq hreply
    | appendParameter arg =>
      have hreply : s.appendParameter arg = ⟨s, false, []⟩ := by
        rw [CallSlots.appendParameter, CallSlots.positions_of_neg hneg]
        split <;> rfl
      exact right_of_refused hreq hreply
    | finishParameters => exact absurd rfl hreq
    | reset =>
      refine ⟨?_, False.elim, fun heq => absurd heq hreq⟩
      rw [CallSlots.handle, CallSlots.reset, CallSlots.positions_of_neg hneg]
      intro i hi
      cases hi

lemma not_right_idle (hneg : s.parameterCount < 0) (hint : -2 ^ 31 ≤ s.parameterCount) :
    ¬ HandledRight s ∅ .finishParameters := by
  intro hright
  have hresult : (s.handle .finishParameters).result = true := by
    rw [CallSlots.handle, CallSlots.finishParameters, CallSlots.positions_of_neg hneg]
    rfl
  have hfilled := (hright.complete rfl).mp hresult 0 (CallSlots.size_pos_of_neg hneg hint)
  cases hfilled

/-! ### Sequences of requests -/

lemma allRight_iff_of_nonneg (h0 : 0 ≤ s.parameterCount) (hint : s.parameterCount < 2 ^ 31)
    (h : Tracks s filled) :
    AllRight s filled requests ↔ ∀ arg, .attachParameter arg s.parameterCount ∉ requests := by
  induction requests generalizing s filled with
  | nil =>
    constructor
    · intro _ arg hmem
      cases hmem
    · intro _
      trivial
  | cons request requests ih =>
    have hcount := s.handle_parameterCount request
    constructor
    · rintro ⟨hright, hrest⟩ arg hmem
      rcases List.mem_cons.mp hmem with rfl | hmem
      · exact not_right_behind h0 hint arg hright
      · by_cases hreq : ∀ arg, request ≠ .attachParameter arg s.parameterCount
        · obtain ⟨-, htracks⟩ := right_step h0 hint h hreq
          have hall := (ih (hcount ▸ h0) (hcount ▸ hint) htracks).mp hrest arg
          rw [hcount] at hall
          exact hall hmem
        · push Not at hreq
          obtain ⟨arg', rfl⟩ := hreq
          exact not_right_behind h0 hint arg' hright
    · intro hall
      have hreq : ∀ arg, request ≠ .attachParameter arg s.parameterCount := by
        rintro arg rfl
        exact hall arg List.mem_cons_self
      obtain ⟨hright, htracks⟩ := right_step h0 hint h hreq
      refine ⟨hright, (ih (hcount ▸ h0) (hcount ▸ hint) htracks).mpr fun arg hmem => ?_⟩
      rw [hcount] at hmem
      exact hall arg (List.mem_cons_of_mem request hmem)

lemma allRight_iff_of_neg (hneg : s.parameterCount < 0) (hint : -2 ^ 31 ≤ s.parameterCount) :
    AllRight s ∅ requests ↔ .finishParameters ∉ requests := by
  induction requests generalizing s with
  | nil => simp [AllRight]
  | cons request requests ih =>
    obtain ⟨hcount, hfilled, hright⟩ := idle_step hneg request
    have hrest := ih (hcount ▸ hneg) (hcount ▸ hint)
    rw [AllRight, hfilled, hrest, List.mem_cons, not_or]
    refine and_congr_left fun _ => ⟨?_, fun hne => hright fun heq => hne heq.symm⟩
    rintro hr rfl
    exact not_right_idle hneg hint hr

lemma allRight_new_iff {parameterCount : Int} (hlow : -2 ^ 31 ≤ parameterCount)
    (hhigh : parameterCount < 2 ^ 31) (memory : ℕ → YCPValue) (requests : List SlotRequest) :
    AllRight (.new parameterCount memory) ∅ requests ↔ Fitting parameterCount requests := by
  unfold Fitting
  split
  · next h0 => exact allRight_iff_of_nonneg h0 hhigh (tracks_new parameterCount memory)
  · next h0 => exact allRight_iff_of_neg (Int.not_le.mp h0) hlow

end

lemma functionParameterCount_bounds (type : YType) :
    -2 ^ 31 ≤ functionParameterCount type ∧ functionParameterCount type < 2 ^ 31 := by
  have hzero : -2 ^ 31 ≤ (0 : Int) ∧ (0 : Int) < 2 ^ 31 := by omega
  cases type with
  | functionT r arguments q => exact ⟨neg_le_toInt32 _, toInt32_lt _⟩
  | _ => exact hzero

/-- The slots of both kinds of function stay in bounds exactly where no parameter is attached behind them. -/
theorem callSlots_right_iff (P : Program) (m_sentry : EntryRef) (m_type : YType) (memory : ℕ → YCPValue)
    (requests : List SlotRequest) :
    (AllRight (Y2YCPFunction P m_sentry memory) ∅ requests ↔
        Fitting (functionParameterCount (P.symbol m_sentry).type) requests) ∧
      (AllRight (Y2StdioFunction m_type memory) ∅ requests ↔
        Fitting (functionParameterCount m_type) requests) := by
  obtain ⟨hlow, hhigh⟩ := functionParameterCount_bounds (P.symbol m_sentry).type
  obtain ⟨hlow', hhigh'⟩ := functionParameterCount_bounds m_type
  exact ⟨allRight_new_iff hlow hhigh memory requests, allRight_new_iff hlow' hhigh' memory requests⟩

/-- A parameter for a function without any. -/
theorem not_callSlots_right : ¬ ∀ (m_type : YType) (memory : ℕ → YCPValue) (requests : List SlotRequest),
    AllRight (Y2StdioFunction m_type memory) ∅ requests := by
  intro hall
  have hright := hall (.functionT (.base .voidT unqualified) [] unqualified) (fun _ => .null)
    [.attachParameter .void 0]
  have hbound := hright.1.inBounds 0 (List.mem_singleton.mpr rfl)
  exact absurd hbound (by decide)

end YastCore.Interp
