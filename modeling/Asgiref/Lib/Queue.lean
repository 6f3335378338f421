import Mathlib.Tactic.Lemma

/-!
# Who comes first in a queue

`Leads p q l`: an element that satisfies `p` is in the queue, and no element that satisfies `q` stands before it.
Appending to the queue keeps this, and so does serving its head, until the element itself is served.
-/

namespace Asgiref.Lib

universe u

variable {α : Type u} {p q : α → Prop}

/-- An element with `p` is in the queue, and none with `q` stands before it. -/
def Leads (p q : α → Prop) : List α → Prop
  | [] => False
  | x :: l => p x ∨ ¬ q x ∧ Leads p q l

theorem leads_append {l : List α} (h : Leads p q l) (l' : List α) : Leads p q (l ++ l') := by
  induction l with
  | nil => exact h.elim
  | cons x l ih => exact h.imp id fun h => ⟨h.1, ih h.2⟩

/-- An element that joins a queue where nobody with `q` stands. -/
theorem leads_snoc {l : List α} {x : α} (h : ∀ y ∈ l, ¬ q y) (hx : p x) : Leads p q (l ++ [x]) := by
  induction l with
  | nil => exact Or.inl hx
  | cons y l ih =>
    exact Or.inr ⟨h y (List.mem_cons_self ..), ih fun z hz => h z (List.mem_cons_of_mem y hz)⟩

/-- Where nobody with `q` stands, anybody with `p` comes first. -/
theorem leads_of_mem {l : List α} {x : α} (hx : x ∈ l) (hp : p x) (h : ∀ y ∈ l, ¬ q y) : Leads p q l := by
  induction l with
  | nil => cases hx
  | cons y l ih =>
    rcases List.mem_cons.1 hx with rfl | hx
    · exact Or.inl hp
    · exact Or.inr ⟨h y (List.mem_cons_self ..), ih hx fun z hz => h z (List.mem_cons_of_mem y hz)⟩

/-- The head is served, and it has not `p`. -/
theorem leads_tail {l : List α} {x : α} (h : Leads p q (x :: l)) (hx : ¬ p x) : ¬ q x ∧ Leads p q l :=
  h.resolve_left hx

end Asgiref.Lib
