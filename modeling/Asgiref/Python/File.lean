import Asgiref.Python.Str
import Mathlib.Tactic.Common

/-!
# Temporary files

* `File` — `SpooledTemporaryFile`: its bytes and the position, which does not pass the end;
* `write`, `rewind`, `read`, `readline` — the methods;
* `write_atEnd`, `advance_spec` — what is written one after the other, and what is read.
-/

namespace Asgiref.Python

structure File where
  content : Bytes
  position : Nat
  position_le : position ≤ content.length
  deriving DecidableEq

namespace File

/-- `SpooledTemporaryFile(…)` -/
def empty : File := ⟨[], 0, Nat.le_refl 0⟩

/-- `write(data)`, over what is there and past the end. -/
def write (f : File) (data : Bytes) : File where
  content := f.content.take f.position ++ data ++ f.content.drop (f.position + data.length)
  position := f.position + data.length
  position_le := by
    have hle := f.position_le
    simp only [List.length_append, List.length_take]
    omega

/-- `seek(0)` -/
def rewind (f : File) : File := { f with position := 0, position_le := Nat.zero_le _ }

/-- The next `n` bytes, or all that are left. -/
def advance (f : File) (n : Nat) : Bytes × File :=
  ((f.content.drop f.position).take n,
    { f with position := min (f.position + n) f.content.length, position_le := Nat.min_le_right .. })

/-- The bytes of the first line, with its end. -/
def lineLength : Bytes → Nat
  | [] => 0
  | b :: l => if b = 10 then 1 else lineLength l + 1

/-- `read(size)`; `none` where the size is `None` or negative. -/
def read (f : File) (size : Option Nat) : Bytes × File := f.advance (size.getD f.content.length)

/-- `readline(size)`, which is also the next line in a `for` loop over the file. -/
def readline (f : File) (size : Option Nat) : Bytes × File :=
  f.advance (min (lineLength (f.content.drop f.position)) (size.getD f.content.length))

@[simp] theorem content_rewind (f : File) : f.rewind.content = f.content := rfl
@[simp] theorem position_rewind (f : File) : f.rewind.position = 0 := rfl
@[simp] theorem content_advance (f : File) (n : Nat) : (f.advance n).2.content = f.content := rfl

/-- What is written at the end is appended, and the end is where it was written. -/
theorem write_atEnd {f : File} (h : f.position = f.content.length) (data : Bytes) :
    (f.write data).content = f.content ++ data ∧ (f.write data).position = (f.write data).content.length := by
  have hcontent : (f.write data).content = f.content ++ data := by
    simp [write, h]
  refine ⟨hcontent, ?_⟩
  rw [hcontent, List.length_append, ← h]
  rfl

/-- What was read up to a position is continued by what is read from there. -/
theorem advance_spec (f : File) (n : Nat) :
    f.content.take f.position ++ (f.advance n).1 = f.content.take (f.advance n).2.position := by
  show f.content.take f.position ++ (f.content.drop f.position).take n =
    f.content.take (min (f.position + n) f.content.length)
  rw [← List.take_add]
  rcases Nat.le_total (f.position + n) f.content.length with h | h
  · rw [Nat.min_eq_left h]
  · rw [Nat.min_eq_right h, List.take_of_length_le h, List.take_length]

/-- `read()` leaves nothing. -/
theorem position_read_none (f : File) : (f.read none).2.position = f.content.length :=
  Nat.min_eq_right (Nat.le_add_left ..)

end File

end Asgiref.Python
