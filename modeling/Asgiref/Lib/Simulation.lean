import Asgiref.Lib.Machine

/-!
# Forward simulations

A machine against a transition relation that says what its steps amount to.  Some steps of the machine are
invisible: the relation stutters on them.

* `Steps`: the runs of a transition relation;
* `Machine.trace`: the visible part of a schedule;
* `Machine.Simulates`, `Simulates.run`: what is matched step by step is matched run by run;
* `answers`, `answers_of_meets`: the same for an object that answers operations, against one that always can.
-/

namespace Asgiref.Lib

universe u v w x

variable {S : Type u} {A : Type v} {T : Type w} {B : Type x}

/-- The runs of a transition relation. -/
inductive Steps (R : T → B → T → Prop) : T → List B → T → Prop
  | nil {t : T} : Steps R t [] t
  | cons {t u v : T} {b : B} {bs : List B} : R t b u → Steps R u bs v → Steps R t (b :: bs) v

namespace Machine

/-- The runs of the steps of a machine are its runs. -/
theorem run_of_steps {N : Machine T B} {t u : T} {bs : List B} (h : Steps (fun t b u => N.step t b = some u) t bs u) :
    N.run t bs = some u := by
  induction h with
  | nil => rfl
  | cons hstep _ ih => exact N.run_cons_eq_some.2 ⟨_, hstep, ih⟩

variable (M : Machine S A)

/-- What is visible of a schedule. -/
def trace (visible : S → A → Option B) : S → List A → List B
  | _, [] => []
  | s, a :: as =>
    match M.step s a with
    | none => []
    | some s' => (visible s a).toList ++ trace visible s' as

/-- From related states a visible step is a step of `R`, and an invisible one stays related. -/
def Simulates (R : T → B → T → Prop) (visible : S → A → Option B) (rel : S → T → Prop) : Prop :=
  ∀ s a s' t, rel s t → M.step s a = some s' →
    match visible s a with
    | none => rel s' t
    | some b => ∃ t', R t b t' ∧ rel s' t'

variable {M}

/-- **The simulation rule.**  Every run of the machine is a run of the relation on what is visible of it. -/
theorem Simulates.run {R : T → B → T → Prop} {visible : S → A → Option B} {rel : S → T → Prop}
    (h : M.Simulates R visible rel) {s s' : S} {t : T} {as : List A} (hrel : rel s t) (hrun : M.run s as = some s') :
    ∃ t', Steps R t (M.trace visible s as) t' ∧ rel s' t' := by
  induction as generalizing s t with
  | nil => cases hrun; exact ⟨t, .nil, hrel⟩
  | cons a as ih =>
    obtain ⟨u, hu, hrest⟩ := M.run_cons_eq_some.1 hrun
    have hstep := h s a u t hrel hu
    rw [trace, hu]
    cases hv : visible s a with
    | none =>
      rw [hv] at hstep
      exact ih hstep hrest
    | some b =>
      rw [hv] at hstep
      obtain ⟨t₁, hb, hrel₁⟩ := hstep
      obtain ⟨t', hsteps, hrel'⟩ := ih hrel₁ hrest
      exact ⟨t', .cons hb hsteps, hrel'⟩

end Machine

/-! ### Objects that answer -/

variable {O : Type w} {R : Type x}

/-- What an object answers to the operations; `none` as soon as one is not possible. -/
def answers (f : S → O → Option (S × R)) : S → List O → Option (List R)
  | _, [] => some []
  | s, o :: os => (f s o).bind fun p => (answers f p.1 os).map (p.2 :: ·)

/-- The answers of an object to which every operation is possible. -/
def totalAnswers {T : Type v} (g : T → O → T × R) : T → List O → List R
  | _, [] => []
  | t, o :: os => (g t o).2 :: totalAnswers g (g t o).1 os

/-- The steps of an object, without the answers. -/
def stepsOf (f : S → O → Option (S × R)) : Machine S O := ⟨fun s o => (f s o).map Prod.fst⟩

/-- **The refinement rule under a side condition.**  Where every step answers what the other object does, so does
every run. -/
theorem answers_of_meets {T : Type v} {f : S → O → Option (S × R)} {g : T → O → T × R} {rel : S → T → Prop}
    {C : S → O → Prop}
    (hstep : ∀ s t o, rel s t → C s o → ∃ s', f s o = some (s', (g t o).2) ∧ rel s' (g t o).1)
    {s : S} {t : T} {os : List O} (h : rel s t) (hC : (stepsOf f).Meets C s os) :
    answers f s os = some (totalAnswers g t os) := by
  induction os generalizing s t with
  | nil => rfl
  | cons o os ih =>
    obtain ⟨s', hs, hrel⟩ := hstep s t o h hC.1
    have hnext : (stepsOf f).step s o = some s' := by simp only [stepsOf, hs, Option.map_some]
    simp only [answers, hs, Option.bind_some, ih hrel (hC.2 s' hnext), Option.map_some, totalAnswers]

end Asgiref.Lib
