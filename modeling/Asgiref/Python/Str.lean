import Asgiref.Python.Basic

/-!
# Strings, bytes and `int`

A Python string is a list of code points, lone surrogates included.  What its methods do outside ASCII is the
interpreter's Unicode tables, the parameter `Unicode`.

* `int`, `encodeAscii`, `split1`, `sliceTo` — the functions and methods the WSGI adapter calls;
* `isOk_int_digits` — the strings of ASCII digits that `int` reads.
-/

namespace Asgiref.Python

abbrev CodePoint := Fin 0x110000

abbrev Str := List CodePoint

abbrev Bytes := List UInt8

/-- The code point of a character. -/
def ord (c : Char) : CodePoint := Fin.ofNat 0x110000 c.toNat

/-- A string literal of the source. -/
def str (s : String) : Str := s.toList.map ord

/-- A bytes literal of the source. -/
def bytes (s : String) : Bytes := s.toList.map fun c => UInt8.ofNat c.toNat

/-- `c.lower()` for an ASCII character. -/
def lowerAscii (c : CodePoint) : CodePoint := if 65 ≤ c ∧ c ≤ 90 then c + 32 else c

/-- The tables of the interpreter that the modelled methods look up, and its limit on `int`. -/
structure Unicode where
  /-- `str.lower()` -/
  lower : Str → Str
  /-- The digit `int` reads from a code point. -/
  decimal : CodePoint → Option Nat
  /-- The code points `int` skips at both ends. -/
  isSpace : CodePoint → Bool
  /-- `sys.get_int_max_str_digits()`, where 0 means that there is no limit. -/
  intMaxStrDigits : Nat
  lower_ascii : ∀ s, (∀ c ∈ s, c < 128) → lower s = s.map lowerAscii
  decimal_ascii : ∀ c, c < 128 → decimal c = if 48 ≤ c ∧ c ≤ 57 then some (c.val - 48) else none
  decimal_lt : ∀ c d, decimal c = some d → d < 10
  isSpace_ascii : ∀ c, c < 128 → isSpace c = decide (9 ≤ c ∧ c ≤ 13 ∨ c = 32)

/-- The tables of an interpreter that knows ASCII only, with the limit that holds by default. -/
def Unicode.asciiOnly : Unicode where
  lower s := s.map lowerAscii
  decimal c := if 48 ≤ c ∧ c ≤ 57 then some (c.val - 48) else none
  isSpace c := decide (9 ≤ c ∧ c ≤ 13 ∨ c = 32)
  intMaxStrDigits := 4300
  lower_ascii _ _ := rfl
  decimal_ascii _ _ := rfl
  decimal_lt c d h := by
    split at h
    · next hc =>
      have h57 : c.val ≤ 57 := hc.2
      cases h
      omega
    · cases h
  isSpace_ascii _ _ := rfl

variable (u : Unicode)

/-- The digits of a number, with single underscores between them; `after` says whether a digit came last. -/
def digitsFrom (acc : Nat) (after : Bool) : Str → Option Nat
  | [] => if after then some acc else none
  | c :: cs =>
    match u.decimal c with
    | some d => digitsFrom (10 * acc + d) true cs
    | none => if c = 95 ∧ after then digitsFrom acc false cs else none

def stripSpace (s : Str) : Str := ((s.dropWhile u.isSpace).reverse.dropWhile u.isSpace).reverse

/-- A number with at most one sign in front. -/
def signed : Str → Option Int
  | 43 :: ds => (digitsFrom u 0 false ds).map Int.ofNat
  | 45 :: ds => (digitsFrom u 0 false ds).map fun n => -Int.ofNat n
  | ds => (digitsFrom u 0 false ds).map Int.ofNat

/-- The number a string denotes, however many digits it has. -/
def numeral (s : Str) : Option Int := signed u (stripSpace u s)

/-- How many digits `int` counts: underscores and the sign are none. -/
def digitCount (s : Str) : Nat := ((stripSpace u s).filter fun c => (u.decimal c).isSome).length

/-- There are more digits than the interpreter converts. -/
def overLimit (s : Str) : Bool := u.intMaxStrDigits ≠ 0 && u.intMaxStrDigits < digitCount u s

/-- `int(s)`.  The text of the second error goes on with the string. -/
def int (s : Str) : Result Int :=
  match numeral u s with
  | some n =>
    if overLimit u s then
      .error (.valueError (s!"Exceeds the limit ({u.intMaxStrDigits} digits) for integer string conversion: " ++
        s!"value has {digitCount u s} digits; use sys.set_int_max_str_digits() to increase the limit"))
    else .ok n
  | none => .error (.valueError "invalid literal for int() with base 10")

/-- `s.encode("ascii")` -/
def encodeAscii (s : Str) : Result Bytes :=
  if s.all (· < 128) then .ok (s.map fun c => UInt8.ofNat c.val)
  else .error (.valueError "'ascii' codec can't encode characters: ordinal not in range(128)")

/-- `s.split(sep, 1)` -/
def split1 (sep : CodePoint) (s : Str) : List Str :=
  match s.dropWhile (· ≠ sep) with
  | [] => [s]
  | _ :: rest => [s.takeWhile (· ≠ sep), rest]

/-- `xs[:b]` -/
def sliceTo {α : Type} (b : Int) (xs : List α) : List α :=
  if 0 ≤ b then xs.take b.toNat else xs.take (xs.length - (-b).toNat)

theorem sliceTo_of_nonneg {α : Type} {b : Int} (h : 0 ≤ b) (xs : List α) : sliceTo b xs = xs.take b.toNat := by
  simp [sliceTo, h]

/-! ### Numbers in ASCII digits -/

/-- The number a string of ASCII digits denotes. -/
def natOf (acc : Nat) (s : Str) : Nat := s.foldl (fun n c => 10 * n + (c.val - 48)) acc

section

variable {u}

theorem decimal_digit {c : CodePoint} (h : 48 ≤ c ∧ c ≤ 57) : u.decimal c = some (c.val - 48) := by
  rw [u.decimal_ascii c (Fin.lt_def.2 (Nat.lt_of_le_of_lt (Fin.le_def.1 h.2) (by decide))), if_pos h]

theorem isSpace_digit {c : CodePoint} (h : 48 ≤ c ∧ c ≤ 57) : u.isSpace c = false := by
  have h48 : 48 ≤ c.val := h.1
  have h57 : c.val ≤ 57 := h.2
  rw [u.isSpace_ascii c (Fin.lt_def.2 (Nat.lt_of_le_of_lt h57 (by decide)))]
  refine decide_eq_false ?_
  rintro (⟨-, h13⟩ | rfl)
  · have : c.val ≤ 13 := h13
    omega
  · exact absurd h48 (by decide)

theorem digitsFrom_digits {s : Str} (hs : ∀ c ∈ s, 48 ≤ c ∧ c ≤ 57) (acc : Nat) :
    digitsFrom u acc true s = some (natOf acc s) := by
  induction s generalizing acc with
  | nil => rfl
  | cons c cs ih =>
    rw [digitsFrom, decimal_digit (hs c (List.mem_cons_self ..))]
    exact ih (fun d hd => hs d (List.mem_cons_of_mem c hd)) _

theorem stripSpace_digits {s : Str} (hs : ∀ c ∈ s, 48 ≤ c ∧ c ≤ 57) : stripSpace u s = s := by
  have hdrop : ∀ r : Str, (∀ c ∈ r, 48 ≤ c ∧ c ≤ 57) → r.dropWhile u.isSpace = r := by
    intro r hr
    cases r with
    | nil => rfl
    | cons c cs => rw [List.dropWhile_cons, isSpace_digit (hr c (List.mem_cons_self ..))]; rfl
  unfold stripSpace
  rw [hdrop s hs, hdrop s.reverse fun c hc => hs c (List.mem_reverse.1 hc), List.reverse_reverse]

theorem signed_digits {s : Str} (hne : s ≠ []) (hs : ∀ c ∈ s, 48 ≤ c ∧ c ≤ 57) :
    signed u s = some (Int.ofNat (natOf 0 s)) := by
  obtain ⟨c, cs, rfl⟩ := List.exists_cons_of_ne_nil hne
  have hc := hs c (List.mem_cons_self ..)
  have hval : digitsFrom u 0 false (c :: cs) = some (natOf 0 (c :: cs)) := by
    rw [digitsFrom, decimal_digit hc]
    exact digitsFrom_digits (fun d hd => hs d (List.mem_cons_of_mem c hd)) _
  have hsign : c ≠ 43 ∧ c ≠ 45 :=
    ⟨by rintro rfl; exact absurd hc.1 (by decide), by rintro rfl; exact absurd hc.1 (by decide)⟩
  unfold signed
  split
  · next h => exact absurd (List.cons.inj h).1 hsign.1
  · next h => exact absurd (List.cons.inj h).1 hsign.2
  · rw [hval]
    rfl

theorem digitCount_digits {s : Str} (hs : ∀ c ∈ s, 48 ≤ c ∧ c ≤ 57) : digitCount u s = s.length := by
  rw [digitCount, stripSpace_digits hs, List.filter_eq_self.2 fun c hc => by rw [decimal_digit (hs c hc)]; rfl]

theorem numeral_digits {s : Str} (hne : s ≠ []) (hs : ∀ c ∈ s, 48 ≤ c ∧ c ≤ 57) :
    numeral u s = some (Int.ofNat (natOf 0 s)) := by
  rw [numeral, stripSpace_digits hs, signed_digits hne hs]

theorem overLimit_digits {s : Str} (hs : ∀ c ∈ s, 48 ≤ c ∧ c ≤ 57) :
    overLimit u s = true ↔ u.intMaxStrDigits ≠ 0 ∧ u.intMaxStrDigits < s.length := by
  simp [overLimit, digitCount_digits hs]

/-- **The numbers `int` reads**: those that are within the limit. -/
theorem int_eq_ok {s : Str} {n : Int} : int u s = .ok n ↔ numeral u s = some n ∧ overLimit u s = false := by
  unfold int
  cases numeral u s with
  | none => simp
  | some m => cases overLimit u s <;> simp

theorem isOk_int {s : Str} : (int u s).isOk = true ↔ (numeral u s).isSome = true ∧ overLimit u s = false := by
  unfold int
  cases numeral u s with
  | none => simp [Except.isOk, Except.toBool]
  | some m => cases overLimit u s <;> simp [Except.isOk, Except.toBool]

/-- **`int` of a decimal natural number** raises iff there are too many digits. -/
theorem isOk_int_digits {s : Str} (hne : s ≠ []) (hs : ∀ c ∈ s, 48 ≤ c ∧ c ≤ 57) :
    (int u s).isOk = true ↔ u.intMaxStrDigits = 0 ∨ s.length ≤ u.intMaxStrDigits := by
  rw [isOk_int, numeral_digits hne hs, ← Bool.not_eq_true, overLimit_digits hs]
  simp only [Option.isSome_some, true_and]
  omega

end

end Asgiref.Python
