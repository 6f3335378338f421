import Mathlib.Tactic.Lemma

/-!
# Labelled machines with executable steps

A `Machine` is a partial step function on states, labelled by actions; `none` means that the action is
not enabled.  A schedule is a list of actions, `run` carries it out.

* `run_invariant`: what one step keeps, a whole run keeps;
* `run_history`: the same for an invariant that ties the state to the actions so far;
* `run_invariant_of_meets`: the same for runs whose steps all satisfy a side condition (`Meets`);
* `meets_append`: whether a run meets the condition can be told piece by piece;
* `exists_breaking`: a run that does not meet the condition has a first step that breaks it;
* `Happened`, `flag_iff_happened`: what has happened in a run, and a flag of the state that records it;
* `along_iff_meets`: a property of every step of a run (`Along`) against a condition on the state before the
  step, where each step that meets the condition has the property and each that breaks it has not;
  `along_iff_meets_of_meets`: the same for runs whose steps all satisfy a second condition.
-/

namespace Asgiref.Lib

universe u v

/-- A machine with states `S` and actions `A`: the state after the action, `none` where it is not enabled. -/
structure Machine (S : Type u) (A : Type v) where
  step : S → A → Option S

namespace Machine

variable {S : Type u} {A : Type v} (M : Machine S A)

/-- Carry out a schedule; `none` as soon as one action is not enabled. -/
def run : S → List A → Option S
  | s, [] => some s
  | s, a :: as => (M.step s a).bind fun s' => run s' as

theorem run_cons_eq_some {s s' : S} {a : A} {as : List A} :
    M.run s (a :: as) = some s' ↔ ∃ t, M.step s a = some t ∧ M.run t as = some s' := by
  simp [run, Option.bind_eq_some_iff]

/-- Where every action is enabled, every schedule can be carried out. -/
theorem exists_run (h : ∀ s a, ∃ t, M.step s a = some t) (s : S) (as : List A) : ∃ t, M.run s as = some t := by
  induction as generalizing s with
  | nil => exact ⟨s, rfl⟩
  | cons a as ih =>
    obtain ⟨t, ht⟩ := h s a
    obtain ⟨t', hrest⟩ := ih t
    exact ⟨t', M.run_cons_eq_some.2 ⟨t, ht, hrest⟩⟩

/-! ### Invariants -/

/-- **The invariant rule.**  What every step keeps, every run keeps. -/
theorem run_invariant {I : S → Prop} (hstep : ∀ s a s', I s → M.step s a = some s' → I s')
    {s s' : S} {as : List A} (h : I s) (hrun : M.run s as = some s') : I s' := by
  induction as generalizing s with
  | nil => cases hrun; exact h
  | cons a as ih =>
    obtain ⟨t, ht, hrest⟩ := M.run_cons_eq_some.1 hrun
    exact ih (hstep _ _ _ h ht) hrest

/-- **The invariant rule with a history**: `I` relates the actions so far to the state. -/
theorem run_history {I : List A → S → Prop}
    (hstep : ∀ past s a s', I past s → M.step s a = some s' → I (past ++ [a]) s')
    {past : List A} {s s' : S} {as : List A} (h : I past s) (hrun : M.run s as = some s') : I (past ++ as) s' := by
  induction as generalizing past s with
  | nil =>
    cases hrun
    rwa [List.append_nil]
  | cons a as ih =>
    obtain ⟨t, ht, hrest⟩ := M.run_cons_eq_some.1 hrun
    rw [List.append_cons]
    exact ih (hstep past s a t h ht) hrest

/-- Every step the schedule takes from `s` satisfies `C`, a condition on the state before the step and
the action. -/
def Meets (C : S → A → Prop) : S → List A → Prop
  | _, [] => True
  | s, a :: as => C s a ∧ ∀ s', M.step s a = some s' → Meets C s' as

instance decidableMeets {C : S → A → Prop} [∀ s a, Decidable (C s a)] :
    ∀ (s : S) (as : List A), Decidable (M.Meets C s as)
  | _, [] => isTrue trivial
  | s, a :: as =>
    match h : M.step s a with
    | none => decidable_of_iff (C s a) (by simp [Meets, h])
    | some t =>
      have : Decidable (M.Meets C t as) := decidableMeets t as
      decidable_of_iff (C s a ∧ M.Meets C t as) (by simp [Meets, h])

/-- **The invariant rule under a side condition.** -/
theorem run_invariant_of_meets {C : S → A → Prop} {I : S → Prop}
    (hstep : ∀ s a s', I s → C s a → M.step s a = some s' → I s')
    {s s' : S} {as : List A} (h : I s) (hC : M.Meets C s as) (hrun : M.run s as = some s') : I s' := by
  induction as generalizing s with
  | nil => cases hrun; exact h
  | cons a as ih =>
    obtain ⟨t, ht, hrest⟩ := M.run_cons_eq_some.1 hrun
    exact ih (hstep _ _ _ h hC.1 ht) (hC.2 t ht) hrest

/-- A condition that the actions of the schedule satisfy in every state. -/
theorem meets_of_forall {C : S → A → Prop} {as : List A} (h : ∀ a ∈ as, ∀ s, C s a) (s : S) : M.Meets C s as := by
  induction as generalizing s with
  | nil => trivial
  | cons a as ih =>
    exact ⟨h a (List.mem_cons_self ..) s, fun s' _ => ih (fun b hb => h b (List.mem_cons_of_mem a hb)) s'⟩

theorem meets_and {C D : S → A → Prop} {s : S} {as : List A} (hC : M.Meets C s as) (hD : M.Meets D s as) :
    M.Meets (fun s a => C s a ∧ D s a) s as := by
  induction as generalizing s with
  | nil => trivial
  | cons a as ih => exact ⟨⟨hC.1, hD.1⟩, fun s' hs => ih (hC.2 s' hs) (hD.2 s' hs)⟩

theorem meets_append {C : S → A → Prop} {s t : S} {as bs : List A} (hrun : M.run s as = some t) :
    M.Meets C s (as ++ bs) ↔ M.Meets C s as ∧ M.Meets C t bs := by
  induction as generalizing s with
  | nil => cases hrun; simp [Meets]
  | cons a as ih =>
    obtain ⟨u, hu, hrest⟩ := M.run_cons_eq_some.1 hrun
    simp only [List.cons_append, Meets, hu, Option.some.injEq, forall_eq', ih hrest]
    exact and_assoc.symm

/-- A run that does not meet a condition has a first step that breaks it. -/
theorem exists_breaking {C : S → A → Prop} {s s' : S} {as : List A} (hrun : M.run s as = some s')
    (h : ¬ M.Meets C s as) : ∃ as₁ a as₂ t t', as = as₁ ++ a :: as₂ ∧ M.run s as₁ = some t ∧ M.Meets C s as₁ ∧
      ¬ C t a ∧ M.step t a = some t' ∧ M.run t' as₂ = some s' := by
  induction as generalizing s with
  | nil => exact absurd trivial h
  | cons a as ih =>
    obtain ⟨t, ht, hrest⟩ := M.run_cons_eq_some.1 hrun
    by_cases hC : C s a
    · have hnot : ¬ M.Meets C t as := fun hm => h ⟨hC, fun t' ht' => by cases ht.symm.trans ht'; exact hm⟩
      obtain ⟨as₁, b, as₂, u, u', rfl, hu, hm, hb, hstep, hlast⟩ := ih hrest hnot
      refine ⟨a :: as₁, b, as₂, u, u', rfl, M.run_cons_eq_some.2 ⟨t, ht, hu⟩, ⟨hC, fun t' ht' => ?_⟩, hb, hstep, hlast⟩
      cases ht.symm.trans ht'
      exact hm
    · exact ⟨[], a, as, s, t, rfl, rfl, trivial, hC, ht, hrest⟩

/-! ### Events -/

/-- In the run of the schedule from `s₀` an action was taken in a state where `P` held of both. -/
def Happened (s₀ : S) (P : S → A → Prop) (as : List A) : Prop :=
  ∃ as₁ a as₂ s, as = as₁ ++ a :: as₂ ∧ M.run s₀ as₁ = some s ∧ P s a

theorem not_happened_nil {s₀ : S} {P : S → A → Prop} : ¬ M.Happened s₀ P [] :=
  fun ⟨as₁, a, as₂, _, h, _⟩ => by simp at h

/-- The last action is the event, or it happened before. -/
theorem happened_snoc {s₀ s : S} {P : S → A → Prop} {as : List A} {a : A} (hrun : M.run s₀ as = some s) :
    M.Happened s₀ P (as ++ [a]) ↔ M.Happened s₀ P as ∨ P s a := by
  constructor
  · rintro ⟨as₁, b, as₂, t, heq, ht, hP⟩
    rcases List.eq_nil_or_concat as₂ with rfl | ⟨l, c, rfl⟩
    · obtain ⟨rfl, hab⟩ := List.append_inj' heq rfl
      cases hab
      cases hrun.symm.trans ht
      exact .inr hP
    · rw [List.concat_eq_append, ← List.cons_append, ← List.append_assoc] at heq
      exact .inl ⟨as₁, b, l, t, (List.append_inj' heq rfl).1, ht, hP⟩
  · rintro (⟨as₁, b, as₂, t, rfl, ht, hP⟩ | hP)
    · exact ⟨as₁, b, as₂ ++ [a], t, by simp, ht, hP⟩
    · exact ⟨as, a, [], s, rfl, hrun, hP⟩

variable {M} in
theorem Happened.mono {s₀ : S} {P Q : S → A → Prop} {as : List A} (h : M.Happened s₀ P as) (hPQ : ∀ s a, P s a → Q s a) :
    M.Happened s₀ Q as := by
  obtain ⟨as₁, a, as₂, s, has, hrun, hP⟩ := h
  exact ⟨as₁, a, as₂, s, has, hrun, hPQ s a hP⟩

theorem run_append {s t : S} {as bs : List A} (hrun : M.run s as = some t) : M.run s (as ++ bs) = M.run t bs := by
  induction as generalizing s with
  | nil => cases hrun; rfl
  | cons a as ih =>
    obtain ⟨u, hu, hrest⟩ := M.run_cons_eq_some.1 hrun
    rw [List.cons_append, run, hu, Option.bind_some, ih hrest]

/-- **The invariant rule with a history under a side condition.**  The invariant may speak of the schedule that
led to the state. -/
theorem run_history_of_meets {s₀ : S} {C : S → A → Prop} {I : List A → S → Prop}
    (hstep : ∀ past s a s', M.run s₀ past = some s → I past s → C s a → M.step s a = some s' → I (past ++ [a]) s')
    {s : S} {as : List A} (h : I [] s₀) (hC : M.Meets C s₀ as) (hrun : M.run s₀ as = some s) : I as s := by
  suffices hgen : ∀ (past : List A) (t : S), M.run s₀ past = some t → I past t → M.Meets C t as →
      M.run t as = some s → I (past ++ as) s from hgen [] s₀ rfl h hC hrun
  clear hC hrun
  induction as with
  | nil =>
    intro past t _ hI _ hrun
    cases hrun
    rwa [List.append_nil]
  | cons a as ih =>
    intro past t hpast hI hC hrun
    obtain ⟨u, hu, hrest⟩ := M.run_cons_eq_some.1 hrun
    rw [List.append_cons]
    refine ih (past ++ [a]) u ?_ (hstep past t a u hpast hI hC.1 hu) (hC.2 u hu) hrest
    rw [M.run_append hpast, run, hu, Option.bind_some, run]

/-- **A flag.**  What a step sets exactly if it is the event, and never resets, tells whether the event has
happened. -/
theorem flag_iff_happened {s₀ : S} {C : S → A → Prop} {K Q : S → Prop} {P : S → A → Prop} (hK : K s₀) (hQ : ¬ Q s₀)
    (hstep : ∀ s a s', K s → C s a → M.step s a = some s' → (Q s' ↔ Q s ∨ P s a) ∧ K s')
    {s : S} {as : List A} (hC : M.Meets C s₀ as) (hrun : M.run s₀ as = some s) : Q s ↔ M.Happened s₀ P as := by
  have hall := M.run_history_of_meets (I := fun past s => (Q s ↔ M.Happened s₀ P past) ∧ K s)
    (fun past t a t' hpast hI hCa ht => ?_) ⟨iff_of_false hQ M.not_happened_nil, hK⟩ hC hrun
  · exact hall.1
  · obtain ⟨hflag, hkeep⟩ := hstep t a t' hI.2 hCa ht
    exact ⟨by rw [hflag, hI.1, M.happened_snoc hpast], hkeep⟩

/-! ### Properties of steps -/

/-- Every step the schedule takes from `s` satisfies `P`, a relation between the state before, the action and
the state after. -/
def Along (P : S → A → S → Prop) : S → List A → Prop
  | _, [] => True
  | s, a :: as => ∀ s', M.step s a = some s' → P s a s' ∧ Along P s' as

/-- **The exact condition.**  Where a step has the property if it meets the condition and lacks it if it does
not, every step of a run has the property iff every step meets the condition.  All steps of the run satisfy `D`. -/
theorem along_iff_meets_of_meets {K : S → Prop} {C D : S → A → Prop} {P : S → A → S → Prop}
    (hgood : ∀ s a s', K s → D s a → C s a → M.step s a = some s' → P s a s' ∧ K s')
    (hbad : ∀ s a s', K s → ¬ C s a → M.step s a = some s' → ¬ P s a s')
    {s t : S} {as : List A} (h : K s) (hD : M.Meets D s as) (hrun : M.run s as = some t) :
    M.Along P s as ↔ M.Meets C s as := by
  induction as generalizing s with
  | nil => exact Iff.rfl
  | cons a as ih =>
    obtain ⟨u, hu, hrest⟩ := M.run_cons_eq_some.1 hrun
    simp only [Along, Meets, hu, Option.some.injEq, forall_eq']
    by_cases hC : C s a
    · have hs := hgood s a u h hD.1 hC hu
      simp only [hs.1, hC, true_and, ih hs.2 (hD.2 u hu) hrest]
    · simp only [hC, hbad s a u h hC hu, false_and]

/-- The exact condition, in every run. -/
theorem along_iff_meets {K : S → Prop} {C : S → A → Prop} {P : S → A → S → Prop}
    (hgood : ∀ s a s', K s → C s a → M.step s a = some s' → P s a s' ∧ K s')
    (hbad : ∀ s a s', K s → ¬ C s a → M.step s a = some s' → ¬ P s a s')
    {s t : S} {as : List A} (h : K s) (hrun : M.run s as = some t) : M.Along P s as ↔ M.Meets C s as :=
  M.along_iff_meets_of_meets (D := fun _ _ => True) (fun s a s' hK _ => hgood s a s' hK) hbad h
    (M.meets_of_forall (fun _ _ _ => trivial) s) hrun

end Machine

end Asgiref.Lib
