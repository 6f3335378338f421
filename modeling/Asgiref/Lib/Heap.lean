import Mathlib.Tactic.ByContra

/-!
# Heaps of mutable cells

A heap is the list of its cells, and an address a place in it.  Cells are made by `alloc` and changed in place by
`write`; nothing is freed.

* `Grows`: all cells of the one heap are in the other, with what they held;
* `grows_alloc`, `Grows.write`: a new cell, and a write into a cell that is newer than the first heap.
-/

namespace Asgiref.Lib

universe u

structure Heap (D : Type u) where
  cells : List D := []

namespace Heap

variable {D : Type u}

/-- A new cell, with its address. -/
def alloc (h : Heap D) (d : D) : Heap D × Nat := (⟨h.cells ++ [d]⟩, h.cells.length)

def read (h : Heap D) (a : Nat) : Option D := h.cells[a]?

/-- The cell is changed in place. -/
def write (h : Heap D) (a : Nat) (d : D) : Heap D := ⟨h.cells.set a d⟩

/-- No cell of `h` is gone or holds anything else in `h'`. -/
def Grows (h h' : Heap D) : Prop := ∀ a d, h.read a = some d → h'.read a = some d

theorem Grows.refl (h : Heap D) : Grows h h := fun _ _ => id

theorem Grows.trans {h₁ h₂ h₃ : Heap D} (h : Grows h₁ h₂) (h' : Grows h₂ h₃) : Grows h₁ h₃ :=
  fun a d ha => h' a d (h a d ha)

/-- The address of a new cell was not in use. -/
theorem read_alloc_old (h : Heap D) (d : D) : h.read (h.alloc d).2 = none := by
  simp [read, alloc]

@[simp] theorem read_alloc (h : Heap D) (d : D) : (h.alloc d).1.read (h.alloc d).2 = some d := by
  simp [read, alloc]

theorem grows_alloc (h : Heap D) (d : D) : Grows h (h.alloc d).1 := by
  intro a e ha
  have hlt : a < h.cells.length := by
    by_contra hge
    rw [read, List.getElem?_eq_none (by omega)] at ha
    cases ha
  unfold read alloc at *
  rw [List.getElem?_append_left hlt, ha]

theorem read_write {h : Heap D} {a : Nat} {d e : D} (ha : h.read a = some d) : (h.write a e).read a = some e := by
  unfold read write at *
  rw [List.getElem?_set_self']
  simp [ha]

/-- A write in place leaves the cells alone that were there before its own. -/
theorem Grows.write {h h' : Heap D} (hg : Grows h h') {a : Nat} (ha : h.read a = none) (d : D) :
    Grows h (h'.write a d) := by
  intro b e hb
  have hne : a ≠ b := by
    rintro rfl
    rw [ha] at hb
    cases hb
  have hold := hg b e hb
  unfold read Heap.write at *
  rw [List.getElem?_set_ne hne, hold]

end Heap

end Asgiref.Lib
