import Mathlib.Data.List.Nodup
import Mathlib.Data.List.Perm.Subperm
import YastCore.Value.Bytecode

/-!
# The round trip of values through bytecode

Reading what was written for a constant either faults, where a count does not fit the signed type
that the reader keeps it in, or takes exactly the bytes written and yields the value with its texts
cut at the first NUL.
-/

namespace YastCore

open Codec YCPValue

namespace YCPValue

/-! ### Constants -/

section Members

variable {isprint : UInt8 → Bool} {l : List YCPValue} {m : List (YCPValue × YCPValue)}

mutual

/-- The values whose bytecode is at issue: data with NUL-free strings, named terms, ordered maps,
and all counts that are written below 2^32. -/
def Constant (isprint : UInt8 → Bool) : YCPValue → Prop
  | void => True
  | boolean _ => True
  | integer _ => True
  | string t => t.length < 2 ^ 32 ∧ 0 ∉ t
  | byteblock b => b.length < 2 ^ 32
  | path p => (pathToText isprint p).length < 2 ^ 32
  | symbol t => t.length < 2 ^ 32
  | list l => l.length < 2 ^ 32 ∧ ConstantList isprint l
  | term n l => n ≠ [] ∧ n.length < 2 ^ 32 ∧ l.length < 2 ^ 32 ∧ ConstantList isprint l
  | map m => m.length < 2 ^ 32 ∧ MapOrdered m ∧ ConstantMap isprint m
  | _ => False

def ConstantList (isprint : UInt8 → Bool) : List YCPValue → Prop
  | [] => True
  | v :: l => Constant isprint v ∧ ConstantList isprint l

def ConstantMap (isprint : UInt8 → Bool) : List (YCPValue × YCPValue) → Prop
  | [] => True
  | (k, v) :: m => Constant isprint k ∧ Constant isprint v ∧ ConstantMap isprint m

end

lemma constantList_iff : ConstantList isprint l ↔ ∀ v ∈ l, Constant isprint v := by
  induction l with
  | nil => simp [ConstantList]
  | cons v l ih => simp [ConstantList, ih]

lemma constantMap_iff :
    ConstantMap isprint m ↔ ∀ e ∈ m, Constant isprint e.1 ∧ Constant isprint e.2 := by
  induction m with
  | nil => simp [ConstantMap]
  | cons e m ih => simp [ConstantMap, ih, and_assoc]

mutual

/-- The counts fit where the reader keeps them: an `int` for lists, terms and byteblocks, and one
byte more than the text for a C string. -/
def Fits (isprint : UInt8 → Bool) : YCPValue → Prop
  | string t => t.length + 1 < 2 ^ 32
  | byteblock b => b.length < 2 ^ 31
  | path p => (pathToText isprint p).length + 1 < 2 ^ 32
  | symbol t => t.length + 1 < 2 ^ 32
  | list l => l.length < 2 ^ 31 ∧ FitsList isprint l
  | term n l => n.length + 1 < 2 ^ 32 ∧ l.length < 2 ^ 31 ∧ FitsList isprint l
  | map m => FitsMap isprint m
  | _ => True

def FitsList (isprint : UInt8 → Bool) : List YCPValue → Prop
  | [] => True
  | v :: l => Fits isprint v ∧ FitsList isprint l

def FitsMap (isprint : UInt8 → Bool) : List (YCPValue × YCPValue) → Prop
  | [] => True
  | (k, v) :: m => Fits isprint k ∧ Fits isprint v ∧ FitsMap isprint m

end

lemma fitsList_iff : FitsList isprint l ↔ ∀ v ∈ l, Fits isprint v := by
  induction l with
  | nil => simp [FitsList]
  | cons v l ih => simp [FitsList, ih]

lemma fitsMap_iff : FitsMap isprint m ↔ ∀ e ∈ m, Fits isprint e.1 ∧ Fits isprint e.2 := by
  induction m with
  | nil => simp [FitsMap]
  | cons e m ih => simp [FitsMap, ih, and_assoc]

mutual

/-- No symbol, term name or path component holds a NUL. -/
def NulFree : YCPValue → Prop
  | path p => ∀ c ∈ p, 0 ∉ c.component
  | symbol t => 0 ∉ t
  | list l => NulFreeList l
  | term n l => 0 ∉ n ∧ NulFreeList l
  | map m => NulFreeMap m
  | _ => True

def NulFreeList : List YCPValue → Prop
  | [] => True
  | v :: l => NulFree v ∧ NulFreeList l

def NulFreeMap : List (YCPValue × YCPValue) → Prop
  | [] => True
  | (k, v) :: m => NulFree k ∧ NulFree v ∧ NulFreeMap m

end

lemma nulFreeList_iff : NulFreeList l ↔ ∀ v ∈ l, NulFree v := by
  induction l with
  | nil => simp [NulFreeList]
  | cons v l ih => simp [NulFreeList, ih]

lemma nulFreeMap_iff : NulFreeMap m ↔ ∀ e ∈ m, NulFree e.1 ∧ NulFree e.2 := by
  induction m with
  | nil => simp [NulFreeMap]
  | cons e m ih => simp [NulFreeMap, ih, and_assoc]

end Members

/-- The map that the reader builds from the entries in the stream. -/
def rebuild (m : List (YCPValue × YCPValue)) : List (YCPValue × YCPValue) :=
  m.foldl (fun m e => mapInsert e.1 e.2 m) []

mutual

/-- What the bytecode carries of a value. -/
def carried : YCPValue → YCPValue
  | string t => string (cut t)
  | path p => path (p.map PathComponent.carried)
  | symbol t => symbol (cut t)
  | list l => list (carriedList l)
  | term n l => term (cut n) (carriedList l)
  | map m => map (rebuild (carriedMap m))
  | v => v

def carriedList : List YCPValue → List YCPValue
  | [] => []
  | v :: l => carried v :: carriedList l

def carriedMap : List (YCPValue × YCPValue) → List (YCPValue × YCPValue)
  | [] => []
  | (k, v) :: m => (carried k, carried v) :: carriedMap m

end

lemma carriedList_eq_map (l : List YCPValue) : carriedList l = l.map carried := by
  induction l with
  | nil => rfl
  | cons v l ih => rw [carriedList, ih, List.map_cons]

lemma carriedMap_eq_map (m : List (YCPValue × YCPValue)) :
    carriedMap m = m.map fun e => (carried e.1, carried e.2) := by
  induction m with
  | nil => rfl
  | cons e m ih => rw [carriedMap, ih, List.map_cons]

lemma carried_isMapKey {k : YCPValue} (h : k.isMapKey = true) : (carried k).isMapKey = true := by
  cases k <;> simp [isMapKey] at h <;> rfl

end YCPValue

/-! ### What is carried whole -/

namespace YCPValue

lemma map_eq_self_iff {α : Type} {f : α → α} {l : List α} : l.map f = l ↔ ∀ x ∈ l, f x = x := by
  induction l with
  | nil => simp
  | cons x l ih => simp [ih]

lemma carried_carried_of_isMapKey {k : YCPValue} (h : k.isMapKey = true) :
    carried (carried k) = carried k := by
  cases k <;> simp [isMapKey] at h <;> simp [carried, cut_cut]

lemma foldl_mapInsert_ordered {m a : List (YCPValue × YCPValue)} (h : MapOrdered (a ++ m)) :
    m.foldl (fun m e => mapInsert e.1 e.2 m) a = a ++ m := by
  induction m generalizing a with
  | nil => simp
  | cons e m ih =>
    have hlast : mapInsert e.1 e.2 a = a ++ [e] :=
      mapInsert_append e.2 fun e' he' =>
        (List.pairwise_append.mp h.increasing).2.2 e' he' e List.mem_cons_self
    have hordered : MapOrdered (a ++ [e] ++ m) := by
      rwa [List.append_assoc, List.singleton_append]
    rw [List.foldl_cons, hlast, ih hordered, List.append_assoc, List.singleton_append]

/-- Entries that are in order already make up the map themselves. -/
lemma rebuild_of_ordered {m : List (YCPValue × YCPValue)} (h : MapOrdered m) : rebuild m = m :=
  foldl_mapInsert_ordered (a := []) h

lemma keys_foldl_mapInsert (ps a : List (YCPValue × YCPValue)) :
    ∀ e ∈ ps.foldl (fun m e => mapInsert e.1 e.2 m) a,
      e.1 ∈ a.map Prod.fst ∨ e.1 ∈ ps.map Prod.fst := by
  induction ps generalizing a with
  | nil =>
    intro e he
    exact .inl (List.mem_map_of_mem he)
  | cons p ps ih =>
    intro e he
    rcases ih (mapInsert p.1 p.2 a) e he with h | h
    · obtain ⟨e', he', heq⟩ := List.mem_map.mp h
      rcases mem_mapInsert he' with rfl | ⟨e'', he'', heq', -⟩
      · exact .inr (by simp [← heq])
      · exact .inl (List.mem_map.mpr ⟨e'', he'', by rw [← heq', heq]⟩)
    · exact .inr (by simp [h])

lemma MapOrdered.nodup_keys {m : List (YCPValue × YCPValue)} (h : MapOrdered m) :
    (m.map Prod.fst).Nodup := by
  refine List.pairwise_map.mpr ?_
  refine List.Pairwise.imp_of_mem ?_ h.increasing
  intro e e' he _ hless heq
  rw [← heq, keyLess_irrefl (h.keys e he)] at hless
  cases hless

/-- Cutting the keys of a map cannot end in the same map unless no key is cut: the keys would be
permuted by a function that does nothing the second time. -/
lemma carried_keys_of_rebuild {m : List (YCPValue × YCPValue)} (hm : MapOrdered m)
    (h : rebuild (carriedMap m) = m) : ∀ e ∈ m, carried e.1 = e.1 := by
  have hfst : (carriedMap m).map Prod.fst = (m.map Prod.fst).map carried := by
    rw [carriedMap_eq_map, List.map_map, List.map_map]
    rfl
  have hsubset : m.map Prod.fst ⊆ (m.map Prod.fst).map carried := by
    intro k hk
    obtain ⟨e, he, rfl⟩ := List.mem_map.mp hk
    rw [← h] at he
    rcases keys_foldl_mapInsert (carriedMap m) [] e he with hnil | hmem
    · simp at hnil
    · rwa [hfst] at hmem
  have hperm : (m.map Prod.fst).Perm ((m.map Prod.fst).map carried) :=
    (List.subperm_of_subset hm.nodup_keys hsubset).perm_of_length_le (by simp)
  have hinj := List.inj_on_of_nodup_map (hperm.nodup_iff.mp hm.nodup_keys)
  intro e he
  have hk : e.1 ∈ m.map Prod.fst := List.mem_map_of_mem he
  have hk' : carried e.1 ∈ m.map Prod.fst := hperm.symm.subset (List.mem_map_of_mem hk)
  exact hinj hk' hk (carried_carried_of_isMapKey (hm.keys e he))

lemma rebuild_carriedMap_eq_iff {m : List (YCPValue × YCPValue)} (hm : MapOrdered m) :
    rebuild (carriedMap m) = m ↔ ∀ e ∈ m, carried e.1 = e.1 ∧ carried e.2 = e.2 := by
  constructor
  · intro h
    have hkeys := carried_keys_of_rebuild hm h
    have hordered : MapOrdered (carriedMap m) := by
      have heq : carriedMap m = m.map fun e => (e.1, carried e.2) := by
        rw [carriedMap_eq_map]
        exact List.map_congr_left fun e he => by rw [hkeys e he]
      rw [heq]
      refine ⟨?_, List.pairwise_map.mpr hm.increasing⟩
      intro e he
      obtain ⟨e', he', rfl⟩ := List.mem_map.mp he
      exact hm.keys e' he'
    rw [rebuild_of_ordered hordered, carriedMap_eq_map, map_eq_self_iff] at h
    intro e he
    exact ⟨hkeys e he, congrArg Prod.snd (h e he)⟩
  · intro h
    have heq : carriedMap m = m := by
      rw [carriedMap_eq_map, map_eq_self_iff]
      intro e he
      rw [(h e he).1, (h e he).2]
    rw [heq, rebuild_of_ordered hm]

/-- A constant is carried whole exactly when no text in it is cut. -/
lemma carried_eq_self_iff {isprint : UInt8 → Bool} {v : YCPValue} (hv : v.Constant isprint) :
    v.carried = v ↔ v.NulFree := by
  induction v using YCPValue.induct with
  | string t => simp only [carried, NulFree, cut_eq_self.mpr hv.2]
  | path p =>
    simp only [carried, NulFree, path.injEq, map_eq_self_iff, PathComponent.carried_eq_self]
  | symbol t => simp only [carried, NulFree, symbol.injEq, cut_eq_self]
  | list l ih =>
    simp only [Constant, constantList_iff] at hv
    simp only [carried, NulFree, list.injEq, carriedList_eq_map, map_eq_self_iff, nulFreeList_iff]
    exact forall₂_congr fun v hl => ih v hl (hv.2 v hl)
  | term n l ih =>
    simp only [Constant, constantList_iff] at hv
    simp only [carried, NulFree, term.injEq, carriedList_eq_map, map_eq_self_iff, nulFreeList_iff,
      cut_eq_self]
    exact and_congr_right fun _ => forall₂_congr fun v hl => ih v hl (hv.2.2.2 v hl)
  | map m ih =>
    simp only [Constant, constantMap_iff] at hv
    simp only [carried, NulFree, map.injEq, nulFreeMap_iff, rebuild_carriedMap_eq_iff hv.2.1]
    exact forall₂_congr fun e he =>
      and_congr ((ih e he).1 (hv.2.2 e he).1) ((ih e he).2 (hv.2.2 e he).2)
  | _ => simp_all [carried, NulFree, Constant]

end YCPValue

namespace Bytecode

variable {τ : Type} (isprint : UInt8 → Bool) (writeCode : CodePtr → Option Bytes)
  (writeEntry : EntryRef → Option Bytes)

/-! ### What is written -/

/-- The bytes written for a value that the writer accepts. -/
def bytesOf (v : YCPValue) : Bytes := (writeValue isprint writeCode writeEntry v).getD []

lemma writeElements_eq {l : List YCPValue}
    (h : ∀ v ∈ l, writeValue isprint writeCode writeEntry v =
      some (bytesOf isprint writeCode writeEntry v)) :
    writeElements isprint writeCode writeEntry l =
      some (l.flatMap (bytesOf isprint writeCode writeEntry)) := by
  induction l with
  | nil => simp
  | cons v l ih =>
    rw [writeElements_cons, h v List.mem_cons_self, ih fun w hw => h w (List.mem_cons_of_mem _ hw)]
    simp

lemma writeEntries_eq {m : List (YCPValue × YCPValue)}
    (h : ∀ e ∈ m, writeValue isprint writeCode writeEntry e.1 =
        some (bytesOf isprint writeCode writeEntry e.1) ∧
      writeValue isprint writeCode writeEntry e.2 =
        some (bytesOf isprint writeCode writeEntry e.2)) :
    writeEntries isprint writeCode writeEntry m =
      some (m.flatMap fun e => bytesOf isprint writeCode writeEntry e.1 ++
        bytesOf isprint writeCode writeEntry e.2) := by
  induction m with
  | nil => simp
  | cons e m ih =>
    obtain ⟨hk, hv⟩ := h e List.mem_cons_self
    rw [writeEntries_cons, hk, hv, ih fun e he => h e (List.mem_cons_of_mem _ he)]
    simp

/-- The writer accepts the value. -/
def Accepted (v : YCPValue) : Prop :=
  writeValue isprint writeCode writeEntry v = some (bytesOf isprint writeCode writeEntry v)

variable {isprint writeCode writeEntry}

lemma accepted_of_eq {v : YCPValue} {w : Bytes}
    (h : writeValue isprint writeCode writeEntry v = some w) :
    Accepted isprint writeCode writeEntry v ∧ bytesOf isprint writeCode writeEntry v = w := by
  have hw : bytesOf isprint writeCode writeEntry v = w := by rw [bytesOf, h, Option.getD_some]
  exact ⟨by rw [Accepted, h, hw], hw⟩

lemma accepted_list {l : List YCPValue} (hlen : l.length < 2 ^ 32)
    (h : ∀ v ∈ l, Accepted isprint writeCode writeEntry v) :
    Accepted isprint writeCode writeEntry (list l) ∧
      bytesOf isprint writeCode writeEntry (list l) =
        8 :: (writeInt32 l.length ++ l.flatMap (bytesOf isprint writeCode writeEntry)) := by
  apply accepted_of_eq
  rw [writeValue_list, writeElements_eq isprint writeCode writeEntry h, writeList, if_pos hlen]
  rfl

lemma accepted_term {n : Text} {l : List YCPValue} (hlen : l.length < 2 ^ 32)
    (h : ∀ v ∈ l, Accepted isprint writeCode writeEntry v) :
    Accepted isprint writeCode writeEntry (term n l) ∧
      bytesOf isprint writeCode writeEntry (term n l) = 9 :: (writeString n ++
        (writeInt32 l.length ++ l.flatMap (bytesOf isprint writeCode writeEntry))) := by
  apply accepted_of_eq
  rw [writeValue_term, writeElements_eq isprint writeCode writeEntry h, writeList, if_pos hlen]
  rfl

lemma accepted_map {m : List (YCPValue × YCPValue)}
    (h : ∀ e ∈ m, Accepted isprint writeCode writeEntry e.1 ∧
      Accepted isprint writeCode writeEntry e.2) :
    Accepted isprint writeCode writeEntry (map m) ∧
      bytesOf isprint writeCode writeEntry (map m) = 10 :: (writeInt32 m.length ++
        m.flatMap fun e => bytesOf isprint writeCode writeEntry e.1 ++
          bytesOf isprint writeCode writeEntry e.2) := by
  apply accepted_of_eq
  rw [writeValue_map, writeEntries_eq isprint writeCode writeEntry h]
  rfl

/-- Every constant is accepted by the writer. -/
lemma accepted_constant {v : YCPValue} (h : v.Constant isprint) :
    Accepted isprint writeCode writeEntry v := by
  induction v using YCPValue.induct with
  | void => rfl
  | boolean b => rfl
  | integer i => rfl
  | string t => rfl
  | byteblock b => rfl
  | path p => rfl
  | symbol t => rfl
  | list l ih =>
    simp only [Constant, constantList_iff] at h
    exact (accepted_list h.1 fun v hv => ih v hv (h.2 v hv)).1
  | term n l ih =>
    simp only [Constant, constantList_iff] at h
    exact (accepted_term h.2.2.1 fun v hv => ih v hv (h.2.2.2 v hv)).1
  | map m ih =>
    simp only [Constant, constantMap_iff] at h
    exact (accepted_map fun e he =>
      ⟨(ih e he).1 (h.2.2 e he).1, (ih e he).2 (h.2.2 e he).2⟩).1
  | _ => simp [Constant] at h

/-! ### What is read -/

lemma foldIdx_listSet (f : YCPValue → YCPValue) (l a : List YCPValue) :
    foldIdx (fun i (a : List YCPValue) v => listSet a i (f v)) a.length l a = a ++ l.map f := by
  induction l generalizing a with
  | nil => simp [foldIdx]
  | cons v l ih =>
    rw [foldIdx, listSet_length, show a.length + 1 = (a ++ [f v]).length by simp, ih]
    simp

lemma foldIdx_mapInsert (m a : List (YCPValue × YCPValue)) (i : Nat) :
    foldIdx (fun _ (a : List (YCPValue × YCPValue)) e => mapInsert (carried e.1) (carried e.2) a)
      i m a = (carriedMap m).foldl (fun m e => mapInsert e.1 e.2 m) a := by
  induction m generalizing i a with
  | nil => rfl
  | cons e m ih =>
    rw [foldIdx, ih, carriedMap]
    rfl

section Inner

variable {read : ByteReader τ YCPValue} {t : τ}

lemma readList_decides {l : List YCPValue} (hlen : l.length < 2 ^ 32)
    (h : ∀ v ∈ l, Decides read t (bytesOf isprint writeCode writeEntry v) (v.Fits isprint)
      v.carried t) :
    Decides (readList read) t
      (writeInt32 l.length ++ l.flatMap (bytesOf isprint writeCode writeEntry))
      (l.length < 2 ^ 31 ∧ FitsList isprint l) (carriedList l) t := by
  rw [carriedList_eq_map, fitsList_iff, ← List.nil_append (l.map carried), ← foldIdx_listSet]
  refine (reads_writeInt32 hlen t).bind_decides (decides_guard fun _ => ?_)
  exact decides_countedLoop (fun v hv i a => (h v hv).map (Reads.pure (listSet a i v.carried) t)) 0 []

lemma readMapEntry_decides {e : YCPValue × YCPValue} (hkey : e.1.isMapKey = true)
    (hk : Decides read t (bytesOf isprint writeCode writeEntry e.1) (e.1.Fits isprint) e.1.carried t)
    (hv : Decides read t (bytesOf isprint writeCode writeEntry e.2) (e.2.Fits isprint) e.2.carried t)
    (m : List (YCPValue × YCPValue)) :
    Decides (readMapEntry read m) t
      (bytesOf isprint writeCode writeEntry e.1 ++ bytesOf isprint writeCode writeEntry e.2)
      (e.1.Fits isprint ∧ e.2.Fits isprint) (mapInsert e.1.carried e.2.carried m) t := by
  refine hk.bind (hv.map ?_)
  have hkey' := carried_isMapKey hkey
  rw [mapAdd, isNull_of_isMapKey hkey', hkey']
  exact Reads.pure _ t

lemma readEntries_decides {m : List (YCPValue × YCPValue)} (hlen : m.length < 2 ^ 32)
    (hkeys : ∀ e ∈ m, e.1.isMapKey = true)
    (h : ∀ e ∈ m,
      Decides read t (bytesOf isprint writeCode writeEntry e.1) (e.1.Fits isprint) e.1.carried t ∧
      Decides read t (bytesOf isprint writeCode writeEntry e.2) (e.2.Fits isprint) e.2.carried t) :
    Decides (do
        let len ← readInt32
        return YCPValue.map (← countedLoop (fun _ m => readMapEntry read m) 0 len [])) t
      (writeInt32 m.length ++ m.flatMap fun e => bytesOf isprint writeCode writeEntry e.1 ++
        bytesOf isprint writeCode writeEntry e.2)
      (FitsMap isprint m) (map (rebuild (carriedMap m))) t := by
  rw [fitsMap_iff, rebuild, ← foldIdx_mapInsert m [] 0]
  have hloop := decides_countedLoop (fun e he (_ : Nat) a =>
    readMapEntry_decides (hkeys e he) (h e he).1 (h e he).2 a) 0 []
  exact (reads_writeInt32 hlen t).bind_decides (hloop.map (Reads.pure _ t))

lemma readString_decides {s : Text} (h : s.length < 2 ^ 32) :
    Decides readString t (writeString s) (s.length + 1 < 2 ^ 32) (!s.isEmpty, cut s) t :=
  ⟨fun hfit => reads_writeString hfit t, fun hfit => faults_writeString (by omega) t⟩

lemma readTerm_decides {n : Text} {l : List YCPValue} (hn : n ≠ []) (hnlen : n.length < 2 ^ 32)
    (hlen : l.length < 2 ^ 32)
    (h : ∀ v ∈ l, Decides read t (bytesOf isprint writeCode writeEntry v) (v.Fits isprint)
      v.carried t) :
    Decides (readTerm read) t (writeString n ++
        (writeInt32 l.length ++ l.flatMap (bytesOf isprint writeCode writeEntry)))
      ((term n l).Fits isprint) (term n l).carried t := by
  refine (readString_decides hnlen).bind ?_
  have hne : (!n.isEmpty) = true := by simpa using hn
  simp only [hne, if_true]
  exact (readList_decides hlen h).map (Reads.pure _ t)

end Inner

/-- Reading a constant back: what happens is decided by the counts alone. -/
theorem readValueFuel_decides (readCode : ByteReader τ CodePtr) (t : τ) {v : YCPValue}
    (hv : v.Constant isprint) {fuel : Nat}
    (hfuel : (bytesOf isprint writeCode writeEntry v).length ≤ fuel) :
    Decides (readValueFuel readCode fuel) t (bytesOf isprint writeCode writeEntry v)
      (v.Fits isprint) v.carried t := by
  induction v using YCPValue.induct generalizing fuel with
  | void =>
    obtain ⟨k, rfl⟩ := Nat.exists_eq_add_of_lt hfuel
    exact (reads_next ReadFault.endOfStream 0 t).bind_decides (Reads.pure _ t).decides
  | boolean b =>
    obtain ⟨k, rfl⟩ := Nat.exists_eq_add_of_lt hfuel
    refine (reads_next ReadFault.endOfStream 1 t).bind_decides ?_
    exact (reads_writeBool b t).decides.map (Reads.pure _ t)
  | integer i =>
    obtain ⟨k, rfl⟩ := Nat.exists_eq_add_of_lt hfuel
    refine (reads_next ReadFault.endOfStream 2 t).bind_decides ?_
    exact (reads_writeInteger i t).decides.map (Reads.pure _ t)
  | string s =>
    obtain ⟨k, rfl⟩ := Nat.exists_eq_add_of_lt hfuel
    refine (reads_next ReadFault.endOfStream 4 t).bind_decides ?_
    exact (readString_decides hv.1).map (Reads.pure _ t)
  | byteblock b =>
    obtain ⟨k, rfl⟩ := Nat.exists_eq_add_of_lt hfuel
    refine (reads_next ReadFault.endOfStream 5 t).bind_decides ?_
    refine Decides.map ⟨fun hfit => reads_writeBytep hfit t, fun hfit => ?_⟩ (Reads.pure _ t)
    exact faults_writeBytep (Nat.le_of_not_lt hfit) hv t
  | path p =>
    obtain ⟨k, rfl⟩ := Nat.exists_eq_add_of_lt hfuel
    refine (reads_next ReadFault.endOfStream 6 t).bind_decides ?_
    refine (readString_decides hv).map ?_
    rw [cut_eq_self.mpr (zero_not_mem_pathToText isprint p), parsePath_pathToText]
    exact Reads.pure _ t
  | symbol s =>
    obtain ⟨k, rfl⟩ := Nat.exists_eq_add_of_lt hfuel
    refine (reads_next ReadFault.endOfStream 7 t).bind_decides ?_
    exact (readString_decides hv).map (Reads.pure _ t)
  | list l ih =>
    simp only [Constant, constantList_iff] at hv
    rw [(accepted_list hv.1 fun v hl => accepted_constant (hv.2 v hl)).2] at hfuel ⊢
    obtain ⟨k, rfl⟩ := Nat.exists_eq_add_of_lt hfuel
    refine (reads_next ReadFault.endOfStream 8 t).bind_decides (Decides.map ?_ (Reads.pure _ t))
    refine readList_decides hv.1 fun v hl => ih v hl (hv.2 v hl) ?_
    have hle := length_le_flatMap (f := bytesOf isprint writeCode writeEntry) hl
    simp only [List.length_append] at hfuel ⊢
    omega
  | term n l ih =>
    simp only [Constant, constantList_iff] at hv
    rw [(accepted_term hv.2.2.1 fun v hl => accepted_constant (hv.2.2.2 v hl)).2] at hfuel ⊢
    obtain ⟨k, rfl⟩ := Nat.exists_eq_add_of_lt hfuel
    refine (reads_next ReadFault.endOfStream 9 t).bind_decides ?_
    refine readTerm_decides hv.1 hv.2.1 hv.2.2.1 fun v hl => ih v hl (hv.2.2.2 v hl) ?_
    have hle := length_le_flatMap (f := bytesOf isprint writeCode writeEntry) hl
    simp only [List.length_append] at hfuel ⊢
    omega
  | map m ih =>
    simp only [Constant, constantMap_iff] at hv
    obtain ⟨hlen, hordered, hm⟩ := hv
    rw [(accepted_map fun e he => ⟨accepted_constant (hm e he).1,
      accepted_constant (hm e he).2⟩).2] at hfuel ⊢
    obtain ⟨k, rfl⟩ := Nat.exists_eq_add_of_lt hfuel
    refine (reads_next ReadFault.endOfStream 10 t).bind_decides ?_
    have hle (e : YCPValue × YCPValue) (he : e ∈ m) := length_le_flatMap
      (f := fun e => bytesOf isprint writeCode writeEntry e.1 ++
        bytesOf isprint writeCode writeEntry e.2) he
    simp only [List.length_append] at hle
    refine readEntries_decides hlen hordered.keys fun e he =>
      ⟨(ih e he).1 (hm e he).1 ?_, (ih e he).2 (hm e he).2 ?_⟩ <;>
    · have := hle e he
      simp only [List.length_append] at hfuel ⊢
      omega
  | _ => simp [Constant] at hv

lemma readValue_decides (readCode : ByteReader τ CodePtr) (t : τ) {v : YCPValue}
    (hv : v.Constant isprint) :
    Decides (readValue readCode) t (bytesOf isprint writeCode writeEntry v) (v.Fits isprint)
      v.carried t := by
  have h (rest : Bytes) :
      Decides (readValueFuel readCode ((bytesOf isprint writeCode writeEntry v ++ rest).length + 1)) t
        (bytesOf isprint writeCode writeEntry v) (v.Fits isprint) v.carried t :=
    readValueFuel_decides readCode t hv (by rw [List.length_append]; omega)
  exact ⟨fun hfit rest => (h rest).reads hfit rest, fun hfit rest => (h rest).faults hfit rest⟩

/-- Reading what was written for a constant, before any further bytes, yields the constant and
leaves those bytes exactly when its counts fit the reader and no symbol, term name or path component
holds a NUL. -/
theorem readValue_writeValue_iff (readCode : ByteReader τ CodePtr) (t : τ) (v : YCPValue)
    (hv : v.Constant isprint) :
    (∃ w, writeValue isprint writeCode writeEntry v = some w ∧
      ∀ rest, readValue readCode (w ++ rest, t) = .ok (v, (rest, t))) ↔
    v.Fits isprint ∧ v.NulFree := by
  have hdecides : Decides (readValue readCode) t (bytesOf isprint writeCode writeEntry v)
      (v.Fits isprint) v.carried t := readValue_decides readCode t hv
  have haccepted : Accepted isprint writeCode writeEntry v := accepted_constant hv
  rw [← carried_eq_self_iff hv]
  constructor
  · rintro ⟨w, hw, hread⟩
    rw [haccepted, Option.some.injEq] at hw
    subst hw
    by_cases hfit : v.Fits isprint
    · exact ⟨hfit, ((hdecides.reads hfit).unique hread).1⟩
    · exact absurd hread (hdecides.faults hfit).not_reads
  · rintro ⟨hfit, hcarried⟩
    refine ⟨_, haccepted, ?_⟩
    have hread := hdecides.reads hfit
    rw [hcarried] at hread
    exact hread

/-- `isprint` in the C locale. -/
def isprintC (c : UInt8) : Bool := 32 ≤ c && c ≤ 126

/-- The list `[5, $["a":nil]]` comes back. -/
theorem readValue_writeValue_list :
    Constant isprintC (list [integer 5, map [(string [97], void)]]) ∧
    ((∃ w, writeValue isprintC (fun _ => none) (fun _ => none)
        (list [integer 5, map [(string [97], void)]]) = some w ∧
      ∀ rest, readValue (fun _ => .error .invalid) (w ++ rest, ()) =
        .ok (list [integer 5, map [(string [97], void)]], (rest, ()))) ↔
    Fits isprintC (list [integer 5, map [(string [97], void)]]) ∧
      NulFree (list [integer 5, map [(string [97], void)]])) := by
  have hmap : MapOrdered [(string [97], void)] := by
    refine ⟨?_, List.pairwise_singleton _ _⟩
    simp [isMapKey]
  have hconstant : Constant isprintC (list [integer 5, map [(string [97], void)]]) := by
    simp [Constant, ConstantList, ConstantMap, hmap]
  exact ⟨hconstant, readValue_writeValue_iff (fun _ => .error .invalid) ()
    (list [integer 5, map [(string [97], void)]]) hconstant⟩

lemma pathToText_nul : pathToText isprintC [⟨[97, 0, 98], true, by simp⟩] = [46, 34, 97, 34] := by
  decide +kernel

/-- The path constant `."a\\x00b"` is built with a NUL in its component and comes back as `."a"`. -/
theorem readValue_path_cut :
    parsePath [46, 34, 97, 92, 120, 48, 48, 98, 34] = some [⟨[97, 0, 98], true, by simp⟩] ∧
    Constant isprintC (path [⟨[97, 0, 98], true, by simp⟩]) ∧
    writeValue isprintC (fun _ => none) (fun _ => none) (path [⟨[97, 0, 98], true, by simp⟩]) =
      some [6, 4, 4, 0, 0, 0, 46, 34, 97, 34] ∧
    readValue (fun _ => .error .invalid) ([6, 4, 4, 0, 0, 0, 46, 34, 97, 34], ()) =
      .ok (path [⟨[97], true, by simp⟩], ([], ())) ∧
    path [⟨[97], true, by simp⟩] ≠ path [⟨[97, 0, 98], true, by simp⟩] := by
  have hparse : parsePath [46, 34, 97, 92, 120, 48, 48, 98, 34] =
      some [⟨[97, 0, 98], true, by simp⟩] := by decide +kernel
  have hconstant : Constant isprintC (path [⟨[97, 0, 98], true, by simp⟩]) := by
    simp [Constant, pathToText_nul]
  have hwrite : writeValue isprintC (fun _ => none) (fun _ => none)
      (path [⟨[97, 0, 98], true, by simp⟩]) = some [6, 4, 4, 0, 0, 0, 46, 34, 97, 34] := by
    rw [writeValue, pathToText_nul]
    decide +kernel
  have hbytes := (accepted_of_eq hwrite).2
  have hdecides : Decides (readValue (fun _ => .error .invalid)) ()
      (bytesOf isprintC (fun _ => none) (fun _ => none) (path [⟨[97, 0, 98], true, by simp⟩]))
      (Fits isprintC (path [⟨[97, 0, 98], true, by simp⟩]))
      (carried (path [⟨[97, 0, 98], true, by simp⟩])) () := readValue_decides _ () hconstant
  have hread := hdecides.reads (by simp [Fits, pathToText_nul]) []
  rw [hbytes, List.append_nil] at hread
  exact ⟨hparse, hconstant, hwrite, hread, by simp⟩

end Bytecode

end YastCore
