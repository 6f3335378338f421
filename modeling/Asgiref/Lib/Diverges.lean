import Mathlib.Tactic.Common

/-!
# Lists that part

`Diverges l l'`: the two lists are the same up to a place where both go on, and not alike.  Whatever is put in front of
both, or after each of them, they still do.
-/

namespace Asgiref.Lib

variable {α : Type*} {l l' : List α}

/-- The two lists are the same up to a place where they are not. -/
def Diverges (l l' : List α) : Prop := ∃ front a b rest rest', l = front ++ a :: rest ∧ l' = front ++ b :: rest' ∧ a ≠ b

theorem Diverges.ne (h : Diverges l l') : l ≠ l' := by
  obtain ⟨front, a, b, rest, rest', rfl, rfl, hab⟩ := h
  intro heq
  have htail := List.append_cancel_left heq
  exact hab (List.cons.inj htail).1

theorem diverges_of_ne {a b : α} (h : a ≠ b) (l l' : List α) : Diverges (a :: l) (b :: l') := ⟨[], a, b, l, l', rfl, rfl, h⟩

theorem Diverges.append (h : Diverges l l') (r r' : List α) : Diverges (l ++ r) (l' ++ r') := by
  obtain ⟨front, a, b, rest, rest', rfl, rfl, hab⟩ := h
  exact ⟨front, a, b, rest ++ r, rest' ++ r', by simp, by simp, hab⟩

theorem Diverges.after (h : Diverges l l') (front : List α) : Diverges (front ++ l) (front ++ l') := by
  obtain ⟨front', a, b, rest, rest', rfl, rfl, hab⟩ := h
  exact ⟨front ++ front', a, b, rest, rest', by simp, by simp, hab⟩

end Asgiref.Lib
