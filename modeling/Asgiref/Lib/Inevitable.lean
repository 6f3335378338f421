import Asgiref.Lib.Machine
import Mathlib.Algebra.Order.BigOperators.Group.Finset

/-!
# What a machine cannot avoid

* `Inevitable`: however the machine goes on by steps of one kind, it comes to a state in which there is none, and a
  property holds there; `inevitable_of_measure`: it does, if every step of the kind makes a measure smaller;
* `sum_add_sum_change`: a measure that is a sum over two sorts of parts, and a step that changes one of each.
-/

namespace Asgiref.Lib

namespace Machine

universe u v

variable {S : Type u} {A : Type v} (M : Machine S A)

/-- However the machine goes on by steps of the kind `G`, it comes to a state in which there is none, and `Q` holds
there. -/
inductive Inevitable (G : S → A → Prop) (Q : S → Prop) : S → Prop
  | intro {s : S} (hgo : Q s ∨ ∃ a t, G s a ∧ M.step s a = some t)
      (hnext : ∀ a t, G s a → M.step s a = some t → Inevitable G Q t) : Inevitable G Q s

/-- **The measure rule.**  Every step of the kind makes the measure smaller, and there is one as long as `Q` does not
hold. -/
theorem inevitable_of_measure {G : S → A → Prop} {I Q : S → Prop} (measure : S → Nat)
    (hgo : ∀ s, I s → Q s ∨ ∃ a t, G s a ∧ M.step s a = some t)
    (hdown : ∀ s a t, I s → G s a → M.step s a = some t → I t ∧ measure t < measure s) {s : S} (h : I s) :
    M.Inevitable G Q s := by
  generalize hm : measure s = m
  induction m using Nat.strongRecOn generalizing s with
  | ind m ih =>
    refine .intro (hgo s h) fun a t hG ht => ?_
    obtain ⟨hI, hlt⟩ := hdown s a t h hG ht
    exact ih (measure t) (by omega) hI rfl

variable {M} in
/-- What cannot be avoided can be reached. -/
theorem Inevitable.exists_run {G : S → A → Prop} {Q : S → Prop} {s : S} (h : M.Inevitable G Q s) :
    ∃ as t, M.run s as = some t ∧ Q t := by
  induction h with
  | @intro s hgo _ ih =>
    rcases hgo with hQ | ⟨a, t, hG, ht⟩
    · exact ⟨[], s, rfl, hQ⟩
    · obtain ⟨as, u, hrun, hu⟩ := ih a t hG ht
      exact ⟨a :: as, u, M.run_cons_eq_some.2 ⟨t, ht, hrun⟩, hu⟩

end Machine

/-! ### Measures that are sums -/

theorem sum_change {f f' : Nat → Nat} {i n : Nat} (hi : i < n) (h : ∀ j, j ≠ i → f' j = f j) :
    (∑ j ∈ Finset.range n, f' j) + f i = (∑ j ∈ Finset.range n, f j) + f' i := by
  have hmem : i ∈ Finset.range n := Finset.mem_range.2 hi
  have hrest : ∑ j ∈ (Finset.range n).erase i, f' j = ∑ j ∈ (Finset.range n).erase i, f j :=
    Finset.sum_congr rfl fun j hj => h j (Finset.ne_of_mem_erase hj)
  rw [← Finset.add_sum_erase _ f' hmem, ← Finset.add_sum_erase _ f hmem, hrest]
  omega

/-- A step that changes one part of each sort. -/
theorem sum_add_sum_change {f f' g g' : Nat → Nat} {i p n : Nat} (hi : i < n) (hp : p < n)
    (hf : ∀ j, j ≠ i → f' j = f j) (hg : ∀ q, q ≠ p → g' q = g q) :
    (∑ j ∈ Finset.range n, f' j) + (∑ q ∈ Finset.range n, g' q) + (f i + g p) =
      (∑ j ∈ Finset.range n, f j) + (∑ q ∈ Finset.range n, g q) + (f' i + g' p) := by
  have h₁ := sum_change hi hf
  have h₂ := sum_change hp hg
  omega

end Asgiref.Lib
