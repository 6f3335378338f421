import Asgiref.Python.Codec
import Mathlib.Data.List.Basic

/-!
# UTF-8 and Latin-1, there and back

* `decodeUtf8`, `encodeLatin1` — the other directions of the codecs;
* `decodeUtf8_of_encodeUtf8`, `encodeLatin1_decodeLatin1` — each gives back what has been encoded or decoded;
* `prefix_iff_of_encodeUtf8` — one text begins with another iff its UTF-8 bytes do.
-/

namespace Asgiref.Python

/-- `b.decode("utf8")` -/
def decodeUtf8 (b : Bytes) : Result Str :=
  match b.toByteArray.utf8Decode? with
  | some cs => .ok (cs.toList.map ord)
  | none => .error (.valueError "'utf-8' codec can't decode bytes")

/-- `s.encode("latin1")` -/
def encodeLatin1 (s : Str) : Result Bytes :=
  if s.all (·.val < 256) then .ok (s.map fun c => UInt8.ofNat c.val)
  else .error (.valueError "'latin-1' codec can't encode characters: ordinal not in range(256)")

/-! ### Latin-1 -/

theorem encodeLatin1_decodeLatin1 (b : Bytes) : encodeLatin1 (decodeLatin1 b) = .ok b := by
  have hall : (decodeLatin1 b).all (·.val < 256) = true := by
    simp only [decodeLatin1, List.all_map, List.all_eq_true, Function.comp_apply, decide_eq_true_eq]
    exact fun x _ => x.toNat_lt
  unfold encodeLatin1
  rw [if_pos hall, decodeLatin1, List.map_map]
  simp [Function.comp_def]

theorem decodeLatin1_append (a b : Bytes) : decodeLatin1 (a ++ b) = decodeLatin1 a ++ decodeLatin1 b :=
  List.map_append

theorem decodeLatin1_injective : Function.Injective decodeLatin1 := by
  intro a b h
  have hback := encodeLatin1_decodeLatin1 a
  rw [h, encodeLatin1_decodeLatin1 b] at hback
  exact (Except.ok.inj hback).symm

theorem prefix_decodeLatin1 (a b : Bytes) : decodeLatin1 a <+: decodeLatin1 b ↔ a <+: b :=
  List.prefix_map_iff_of_injective fun _ _ h => UInt8.toNat_inj.1 (Fin.mk.inj h)

/-! ### UTF-8 -/

/-- The character at a code point that is not a surrogate. -/
def toChar (c : CodePoint) : Char := Char.ofNat c.val

theorem ord_toChar {c : CodePoint} (h : isSurrogate c = false) : ord (toChar c) = c := by
  have hvalid : c.val.isValidChar := by
    unfold isSurrogate at h
    have hlt : c.val < 0x110000 := c.isLt
    have hnot := of_decide_eq_false h
    unfold Nat.isValidChar
    omega
  refine Fin.ext ?_
  rw [val_ord, toChar, Char.ofNat, dif_pos hvalid]
  rfl

theorem map_ord_toChar {s : Str} (h : IsText s) : (s.map toChar).map ord = s := by
  rw [List.map_map]
  exact (List.map_congr_left fun c hc => ord_toChar (h c hc)).trans (List.map_id s)

theorem encodeUtf8_of_isText {s : Str} (h : IsText s) :
    encodeUtf8 s = .ok (s.flatMap fun c => String.utf8EncodeChar (toChar c)) := by
  obtain ⟨b, hb⟩ := encodeUtf8_eq_ok.2 h
  unfold encodeUtf8 at hb ⊢
  split at hb
  · cases hb
  · next hnone =>
    rw [if_neg hnone]
    rfl

theorem isText_of_encodeUtf8 {s : Str} {b : Bytes} (h : encodeUtf8 s = .ok b) : IsText s := encodeUtf8_eq_ok.1 ⟨b, h⟩

theorem toByteArray_of_encodeUtf8 {s : Str} {b : Bytes} (h : encodeUtf8 s = .ok b) :
    b.toByteArray = (s.map toChar).utf8Encode := by
  rw [encodeUtf8_of_isText (isText_of_encodeUtf8 h)] at h
  cases h
  rw [List.utf8Encode, List.flatMap_map]

/-- **What has been encoded is decoded again.** -/
theorem decodeUtf8_of_encodeUtf8 {s : Str} {b : Bytes} (h : encodeUtf8 s = .ok b) : decodeUtf8 b = .ok s := by
  unfold decodeUtf8
  rw [toByteArray_of_encodeUtf8 h, List.utf8Decode?_utf8Encode]
  exact congrArg Except.ok (map_ord_toChar (isText_of_encodeUtf8 h))

theorem encodeUtf8_append {s t : Str} {b : Bytes} :
    encodeUtf8 (s ++ t) = .ok b ↔ ∃ x y, encodeUtf8 s = .ok x ∧ encodeUtf8 t = .ok y ∧ x ++ y = b := by
  have hparts : IsText (s ++ t) ↔ IsText s ∧ IsText t := by
    unfold IsText
    rw [List.forall_mem_append]
  constructor
  · intro h
    obtain ⟨hs, ht⟩ := hparts.1 (isText_of_encodeUtf8 h)
    rw [encodeUtf8_of_isText (isText_of_encodeUtf8 h), List.flatMap_append] at h
    exact ⟨_, _, encodeUtf8_of_isText hs, encodeUtf8_of_isText ht, Except.ok.inj h⟩
  · rintro ⟨x, y, hx, hy, rfl⟩
    have hs := isText_of_encodeUtf8 hx
    have ht := isText_of_encodeUtf8 hy
    rw [encodeUtf8_of_isText hs] at hx
    rw [encodeUtf8_of_isText ht] at hy
    rw [encodeUtf8_of_isText (hparts.2 ⟨hs, ht⟩), List.flatMap_append, Except.ok.inj hx, Except.ok.inj hy]

/-- **Prefixes.**  One text begins with another iff its bytes do. -/
theorem prefix_iff_of_encodeUtf8 {s t : Str} {x y : Bytes} (hx : encodeUtf8 s = .ok x) (hy : encodeUtf8 t = .ok y) :
    x <+: y ↔ s <+: t := by
  constructor
  · rintro ⟨z, rfl⟩
    have hbytes := toByteArray_of_encodeUtf8 hy
    rw [List.toByteArray_append, toByteArray_of_encodeUtf8 hx] at hbytes
    have hchars := (List.isPrefix_of_utf8Encode_append_eq_utf8Encode _ hbytes).map ord
    rwa [map_ord_toChar (isText_of_encodeUtf8 hx), map_ord_toChar (isText_of_encodeUtf8 hy)] at hchars
  · rintro ⟨r, rfl⟩
    obtain ⟨x', z, hx', -, rfl⟩ := encodeUtf8_append.1 hy
    cases hx.symm.trans hx'
    exact List.prefix_append x z

end Asgiref.Python
