import Asgiref.Python.Str

/-!
# Codecs, and the strings of headers

* `encodeUtf8`, `decodeLatin1`, `decodeAscii` — the codecs of the WSGI adapter;
* `upper` — `str.upper` on what `decodeLatin1` returns, which needs no table of the interpreter;
* `strInt` — `str(n)`, which is a decimal number (`isDecimal_strInt`).
-/

namespace Asgiref.Python

/-- A lone surrogate, which no bytes decode to. -/
def isSurrogate (c : CodePoint) : Bool := decide (0xD800 ≤ c.val ∧ c.val ≤ 0xDFFF)

/-- A string without lone surrogates, such as UTF-8 decodes to. -/
def IsText (s : Str) : Prop := ∀ c ∈ s, isSurrogate c = false

instance (s : Str) : Decidable (IsText s) := decidable_of_iff (s.any isSurrogate = false) (by simp [IsText])

/-- `s.encode("utf8")` -/
def encodeUtf8 (s : Str) : Result Bytes :=
  if s.any isSurrogate then .error (.valueError "'utf-8' codec can't encode characters: surrogates not allowed")
  else .ok (s.flatMap fun c => String.utf8EncodeChar (Char.ofNat c.val))

/-- `b.decode("latin1")` -/
def decodeLatin1 (b : Bytes) : Str := b.map fun x => ⟨x.toNat, Nat.lt_trans x.toNat_lt (by decide)⟩

/-- `b.decode("ascii")` -/
def decodeAscii (b : Bytes) : Result Str :=
  if b.all (·.toNat < 128) then .ok (decodeLatin1 b)
  else .error (.valueError "'ascii' codec can't decode byte: ordinal not in range(128)")

/-- `c.upper()` for a Latin-1 character: the micro sign and the y with diaeresis leave Latin-1, the sharp s becomes two
letters, the feminine and masculine ordinal indicators and the division sign stay. -/
def upperLatin1 (c : CodePoint) : Str :=
  if 97 ≤ c.val ∧ c.val ≤ 122 ∨ 224 ≤ c.val ∧ c.val ≤ 254 ∧ c.val ≠ 247 then [⟨c.val - 32, by omega⟩]
  else if c.val = 181 then [⟨0x39C, by decide⟩]
  else if c.val = 223 then str "SS"
  else if c.val = 255 then [⟨0x178, by decide⟩]
  else [c]

/-- `s.upper()` for a string of Latin-1 characters -/
def upper (s : Str) : Str := s.flatMap upperLatin1

/-- `s.replace(old, new)` for two characters -/
def replace (old new : CodePoint) (s : Str) : Str := s.map fun c => if c = old then new else c

/-- `str(n)` -/
def strInt (n : Int) : Str := str (toString n)

/-- The text of an error message. -/
def text (s : Str) : String := String.ofList (s.map fun c => Char.ofNat c.val)

/-- A decimal number: digits, with a minus sign in front of a negative one. -/
def IsDecimal (s : Str) : Prop :=
  ∃ ds, ds ≠ [] ∧ (∀ c ∈ ds, 48 ≤ c.val ∧ c.val ≤ 57) ∧ (s = ds ∨ s = ord '-' :: ds)

/-! ### What the codecs accept -/

theorem encodeUtf8_eq_ok {s : Str} : (∃ b, encodeUtf8 s = .ok b) ↔ IsText s := by
  unfold encodeUtf8 IsText
  by_cases h : s.any isSurrogate
  · rw [if_pos h]
    obtain ⟨c, hc, hsur⟩ := List.any_eq_true.1 h
    refine ⟨fun ⟨_, hb⟩ => (nomatch hb), fun hall => ?_⟩
    rw [hall c hc] at hsur
    cases hsur
  · rw [if_neg h]
    refine ⟨fun _ c hc => ?_, fun _ => ⟨_, rfl⟩⟩
    cases hsur : isSurrogate c with
    | false => rfl
    | true => exact absurd (List.any_eq_true.2 ⟨c, hc, hsur⟩) h

theorem decodeAscii_of_lt {b : Bytes} (h : ∀ x ∈ b, x.toNat < 128) : decodeAscii b = .ok (decodeLatin1 b) := by
  unfold decodeAscii
  rw [if_pos (List.all_eq_true.2 fun x hx => decide_eq_true (h x hx))]

theorem decodeLatin1_encodeAscii {s : Str} {b : Bytes} (h : encodeAscii s = .ok b) : decodeLatin1 b = s := by
  unfold encodeAscii at h
  split at h
  · next hall =>
    cases h
    rw [decodeLatin1, List.map_map]
    refine (List.map_congr_left fun c hc => ?_).trans (List.map_id s)
    have hlt : c.val < 128 := of_decide_eq_true (List.all_eq_true.1 hall c hc)
    exact Fin.ext (Nat.mod_eq_of_lt (Nat.lt_trans hlt (by decide)))
  · cases h

/-- **ASCII and Latin-1** agree on strings of ASCII characters, and others have no ASCII encoding. -/
theorem encodeAscii_eq_ok {s : Str} {b : Bytes} :
    encodeAscii s = .ok b ↔ decodeLatin1 b = s ∧ ∀ x ∈ b, x.toNat < 128 := by
  constructor
  · intro h
    have hback := decodeLatin1_encodeAscii h
    refine ⟨hback, fun x hx => ?_⟩
    unfold encodeAscii at h
    split at h
    · next hall =>
      have hmem : (⟨x.toNat, Nat.lt_trans x.toNat_lt (by decide)⟩ : CodePoint) ∈ s := by
        rw [← hback]
        exact List.mem_map_of_mem hx
      exact of_decide_eq_true (List.all_eq_true.1 hall _ hmem)
    · cases h
  · rintro ⟨rfl, hb⟩
    have hall : (decodeLatin1 b).all (· < 128) = true := by
      simp only [decodeLatin1, List.all_map, List.all_eq_true, Function.comp_apply, decide_eq_true_eq]
      exact fun x hx => hb x hx
    unfold encodeAscii
    rw [if_pos hall, decodeLatin1, List.map_map]
    simp [Function.comp_def]

/-! ### Decimal numbers -/

theorem val_ord (c : Char) : (ord c).val = c.toNat := by
  have hlt : c.toNat < 0x110000 := by
    obtain h | ⟨-, h⟩ : c.toNat < 0xD800 ∨ 0xDFFF < c.toNat ∧ c.toNat < 0x110000 := c.valid
    · omega
    · exact h
  exact Nat.mod_eq_of_lt hlt

theorem digits_repr (n : Nat) : str n.repr ≠ [] ∧ ∀ c ∈ str n.repr, 48 ≤ c.val ∧ c.val ≤ 57 := by
  constructor
  · intro h
    exact Nat.repr_ne_empty (n := n) (String.toList_eq_nil_iff.1 (List.map_eq_nil_iff.1 h))
  · intro c hc
    obtain ⟨d, hd, rfl⟩ := List.mem_map.1 hc
    rw [Nat.toList_repr] at hd
    have hdigit : d.isDigit = true := Nat.isDigit_of_mem_toDigits (by decide) (by decide) hd
    rw [val_ord]
    simpa [Char.isDigit, UInt32.le_iff_toNat_le] using hdigit

theorem isDecimal_strInt (n : Int) : IsDecimal (strInt n) := by
  unfold strInt
  rw [Int.toString_eq_repr]
  cases n with
  | ofNat m => exact ⟨str m.repr, (digits_repr m).1, (digits_repr m).2, Or.inl rfl⟩
  | negSucc m =>
    refine ⟨str (m + 1).repr, (digits_repr (m + 1)).1, (digits_repr (m + 1)).2, Or.inr ?_⟩
    show ((("-" ++ (m + 1).repr : String).toList).map ord) = _
    rw [String.toList_append, List.map_append]
    rfl

end Asgiref.Python
