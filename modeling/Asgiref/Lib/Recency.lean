import Mathlib.Data.List.Basic
import Mathlib.Tactic.Common

/-!
# The order of last uses

A list is a history: the things that were used, in order.

* `LastBefore l a b`: the last `a` of the history comes before the last `b`;
* `lastBefore_concat`: what one more use changes;
* `LastBefore.asymm`, `LastBefore.trans`, `lastBefore_or`: a strict order, total on what was used;
* `exists_leastRecent`: among things that were used there is one whose last use comes first.
-/

namespace Asgiref.Lib

universe u

variable {α : Type u} [DecidableEq α]

/-- More follows the last `a` than the last `b`; what was never used comes before everything else. -/
def LastBefore (l : List α) (a b : α) : Prop := l.reverse.idxOf b < l.reverse.idxOf a

instance (l : List α) (a b : α) : Decidable (LastBefore l a b) := Nat.decLt _ _

variable {l : List α} {a b c : α}

/-- **One more use**: what is used comes after everything else, and the order of the others stays. -/
theorem lastBefore_concat : LastBefore (l ++ [c]) a b ↔ a ≠ c ∧ (b = c ∨ LastBefore l a b) := by
  unfold LastBefore
  rw [List.reverse_concat]
  by_cases ha : a = c
  · subst ha
    simp
  · rw [List.idxOf_cons_ne _ (Ne.symm ha)]
    by_cases hb : b = c
    · subst hb
      simp [ha]
    · rw [List.idxOf_cons_ne _ (Ne.symm hb)]
      simp [ha, hb]

theorem LastBefore.asymm (h : LastBefore l a b) : ¬ LastBefore l b a := by
  unfold LastBefore at *
  omega

theorem LastBefore.trans (h : LastBefore l a b) (h' : LastBefore l b c) : LastBefore l a c := by
  unfold LastBefore at *
  omega

/-- Of two things, one of which was used, one comes first. -/
theorem lastBefore_or (ha : a ∈ l) (hne : a ≠ b) : LastBefore l a b ∨ LastBefore l b a := by
  have hidx : l.reverse.idxOf a ≠ l.reverse.idxOf b := fun h => hne ((List.idxOf_inj (List.mem_reverse.2 ha)).1 h)
  unfold LastBefore
  omega

/-- **The least recently used.** -/
theorem exists_leastRecent {ks : List α} (hne : ks ≠ []) (hused : ∀ k ∈ ks, k ∈ l) :
    ∃ k ∈ ks, ∀ k' ∈ ks, k' ≠ k → LastBefore l k k' := by
  induction ks with
  | nil => exact absurd rfl hne
  | cons a ks ih =>
    by_cases hks : ks = []
    · subst hks
      refine ⟨a, .head _, fun k' hk' hk => absurd ?_ hk⟩
      simpa using hk'
    · obtain ⟨k, hk, hleast⟩ := ih hks fun k hk => hused k (.tail _ hk)
      by_cases hka : k = a
      · subst hka
        refine ⟨k, .head _, fun k' hk' hk => ?_⟩
        obtain rfl | hk' := List.mem_cons.1 hk'
        · exact absurd rfl hk
        · exact hleast k' hk' hk
      · obtain hbefore | hafter := lastBefore_or (hused k (.tail _ hk)) hka
        · refine ⟨k, .tail _ hk, fun k' hk' hk => ?_⟩
          obtain rfl | hk' := List.mem_cons.1 hk'
          · exact hbefore
          · exact hleast k' hk' hk
        · refine ⟨a, .head _, fun k' hk' hk => ?_⟩
          obtain rfl | hk' := List.mem_cons.1 hk'
          · exact absurd rfl hk
          · by_cases hkk : k' = k
            · rw [hkk]
              exact hafter
            · exact hafter.trans (hleast k' hk' hkk)

end Asgiref.Lib
