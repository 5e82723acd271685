import Mathlib.Data.List.Basic
import Mathlib.Data.List.Infix
import Mathlib.Tactic.Common

/-!
# UTF-8 as lists of bytes

Decoding replaces each byte that starts no character by a question mark. A text occurs in another
exactly when its bytes occur in the bytes of the other.
-/

namespace Utf8

def encode (cs : List Char) : List UInt8 := cs.flatMap String.utf8EncodeChar

/-- The character at the start. -/
def head? (bytes : List UInt8) : Option Char := bytes.toByteArray.utf8DecodeChar? 0

/-- Decoding, after `skip` more bytes of the character before. -/
def decodeFrom : Nat → List UInt8 → List Char
  | _, [] => []
  | skip + 1, _ :: bytes => decodeFrom skip bytes
  | 0, b :: bytes =>
    match head? (b :: bytes) with
    | some c => c :: decodeFrom (c.utf8Size - 1) bytes
    | none => '?' :: decodeFrom 0 bytes

def decode (bytes : List UInt8) : List Char := decodeFrom 0 bytes

/-! ### Round trip -/

lemma head?_encodeChar (c : Char) (bytes : List UInt8) :
    head? (String.utf8EncodeChar c ++ bytes) = some c := by
  rw [head?, List.toByteArray_append]
  exact ByteArray.utf8DecodeChar?_utf8EncodeChar_append

lemma decodeFrom_append (l bytes : List UInt8) :
    decodeFrom l.length (l ++ bytes) = decodeFrom 0 bytes := by
  induction l with
  | nil => rfl
  | cons b l ih => rw [List.length_cons, List.cons_append, decodeFrom, ih]

lemma decode_encodeChar (c : Char) (bytes : List UInt8) :
    decode (String.utf8EncodeChar c ++ bytes) = c :: decode bytes := by
  have hhead := head?_encodeChar c bytes
  have hsize := String.length_utf8EncodeChar c
  cases hc : String.utf8EncodeChar c with
  | nil => exact absurd hc String.utf8EncodeChar_ne_nil
  | cons b l =>
    rw [hc] at hhead hsize
    have hskip : c.utf8Size - 1 = l.length := by
      rw [← hsize, List.length_cons]
      omega
    rw [decode, List.cons_append, decodeFrom]
    rw [List.cons_append] at hhead
    rw [hhead]
    simp only
    rw [hskip, decodeFrom_append, decode]

theorem decode_encode (cs : List Char) : decode (encode cs) = cs := by
  induction cs with
  | nil => rfl
  | cons c cs ih =>
    have hcons : encode (c :: cs) = String.utf8EncodeChar c ++ encode cs := rfl
    rw [hcons, decode_encodeChar, ih]

/-! ### Bytes below 128 -/

lemma encodeChar_ofUInt8 {b : UInt8} (h : b < 128) :
    String.utf8EncodeChar (Char.ofUInt8 b) = [b] := by
  have hle : (Char.ofUInt8 b).val ≤ 127 := by
    have hb : b.toNat < 128 := by simpa [UInt8.lt_iff_toNat_lt] using h
    rw [UInt32.le_iff_toNat_le]
    have hval : (Char.ofUInt8 b).val.toNat = b.toNat := UInt8.toNat_toUInt32 b
    rw [hval]
    exact Nat.le_of_lt_succ hb
  rw [String.utf8EncodeChar_eq_singleton (Char.utf8Size_eq_one_iff.mpr hle)]
  show [b.toUInt32.toUInt8] = [b]
  simp

lemma encode_map_ofUInt8 {bytes : List UInt8} (h : ∀ b ∈ bytes, b < 128) :
    encode (bytes.map Char.ofUInt8) = bytes := by
  induction bytes with
  | nil => rfl
  | cons b bytes ih =>
    have hcons : encode ((b :: bytes).map Char.ofUInt8) =
        String.utf8EncodeChar (Char.ofUInt8 b) ++ encode (bytes.map Char.ofUInt8) := rfl
    rw [hcons, encodeChar_ofUInt8 (h b (by simp)), ih fun x hx => h x (by simp [hx])]
    rfl

lemma decode_of_lt {bytes : List UInt8} (h : ∀ b ∈ bytes, b < 128) :
    decode bytes = bytes.map Char.ofUInt8 := by
  have henc := decode_encode (bytes.map Char.ofUInt8)
  rwa [encode_map_ofUInt8 h] at henc

lemma ofUInt8_injective : Function.Injective Char.ofUInt8 := by
  intro a b h
  have hval : a.toUInt32 = b.toUInt32 := congrArg Char.val h
  exact UInt8.toUInt32_inj.mp hval

/-! ### Occurrences -/

lemma encode_append (a b : List Char) : encode (a ++ b) = encode a ++ encode b := by
  rw [encode, List.flatMap_append]
  rfl

/-- A code is no proper beginning of a text that starts with another code. -/
lemma initial_of_encode_initial (t s : List Char) (h : encode t <+: encode s) : t <+: s := by
  induction t generalizing s with
  | nil => exact List.nil_prefix
  | cons c t ih =>
    obtain ⟨u, hu⟩ := h
    have hdecode := congrArg decode hu
    have hcons : encode (c :: t) ++ u = String.utf8EncodeChar c ++ (encode t ++ u) := by
      rw [← List.append_assoc]
      rfl
    rw [hcons, decode_encodeChar, decode_encode] at hdecode
    cases s with
    | nil => simp at hdecode
    | cons d s =>
      rw [List.cons.injEq] at hdecode
      obtain ⟨rfl, -⟩ := hdecode
      have htail : encode t ++ u = encode s := by
        have hs : encode (c :: s) = String.utf8EncodeChar c ++ encode s := rfl
        rw [hcons, hs] at hu
        exact List.append_cancel_left hu
      exact (List.cons_prefix_cons).mpr ⟨rfl, ih s ⟨u, htail⟩⟩

/-- The first byte of a code is none of the later bytes of a code. -/
lemma firstByte_iff {c : Char} {i : Nat} {b : UInt8} (h : (String.utf8EncodeChar c)[i]? = some b) :
    b.IsUTF8FirstByte ↔ i = 0 := by
  obtain ⟨hi, rfl⟩ := List.getElem?_eq_some_iff.mp h
  exact UInt8.isUTF8FirstByte_getElem_utf8EncodeChar

/-- A code does not start inside another one. -/
lemma not_inside {c d : Char} {a u v : List UInt8}
    (h : a ++ (String.utf8EncodeChar c ++ u) = String.utf8EncodeChar d ++ v) (ha : a ≠ [])
    (hlen : a.length < (String.utf8EncodeChar d).length) : False := by
  have hpos : 0 < a.length := List.length_pos_of_ne_nil ha
  cases hc : String.utf8EncodeChar c with
  | nil => exact String.utf8EncodeChar_ne_nil hc
  | cons b l =>
    have hfirst : b.IsUTF8FirstByte := (firstByte_iff (i := 0) (by rw [hc]; rfl)).mpr rfl
    have hinner : (String.utf8EncodeChar d)[a.length]? = some b := by
      have hget := congrArg (·[a.length]?) h
      simp only [hc, List.cons_append, List.getElem?_append_right (Nat.le_refl _), Nat.sub_self,
        List.getElem?_append_left hlen] at hget
      exact hget.symm
    have hzero := (firstByte_iff hinner).mp hfirst
    omega

theorem infix_of_encode_infix (t s : List Char) (h : encode t <:+: encode s) : t <:+: s := by
  cases t with
  | nil => exact List.nil_infix
  | cons c t =>
    have ht : encode (c :: t) = String.utf8EncodeChar c ++ encode t := rfl
    induction s with
    | nil =>
      have hnil : String.utf8EncodeChar c ++ encode t = [] := ht ▸ List.infix_nil.mp h
      exact absurd (List.append_eq_nil_iff.mp hnil).1 String.utf8EncodeChar_ne_nil
    | cons d s ih =>
      obtain ⟨a, u, hau⟩ := h
      have hs : encode (d :: s) = String.utf8EncodeChar d ++ encode s := rfl
      by_cases ha : a = []
      · subst ha
        exact (initial_of_encode_initial _ _ ⟨u, hau⟩).isInfix
      · by_cases hlen : a.length < (String.utf8EncodeChar d).length
        · rw [ht, hs, List.append_assoc, List.append_assoc] at hau
          exact (not_inside hau ha hlen).elim
        · have hd : String.utf8EncodeChar d <+: a := by
            have hcode : String.utf8EncodeChar d <+: encode (d :: s) := ⟨encode s, hs.symm⟩
            have hbefore : a <+: encode (d :: s) :=
              ⟨encode (c :: t) ++ u, by rw [← List.append_assoc, hau]⟩
            exact List.prefix_of_prefix_length_le hcode hbefore (by omega)
          obtain ⟨a', rfl⟩ := hd
          have htail : a' ++ encode (c :: t) ++ u = encode s := by
            rw [hs, List.append_assoc, List.append_assoc] at hau
            rw [List.append_assoc]
            exact List.append_cancel_left hau
          exact (ih ⟨a', u, htail⟩).trans (List.suffix_cons d s).isInfix

theorem encode_infix_iff (t s : List Char) : encode t <:+: encode s ↔ t <:+: s := by
  constructor
  · exact infix_of_encode_infix t s
  · rintro ⟨a, b, rfl⟩
    exact ⟨encode a, encode b, by rw [encode_append, encode_append]⟩

end Utf8
