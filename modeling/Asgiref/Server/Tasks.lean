import Asgiref.Server.StatelessServer

/-!
# The tasks of the server

A task is reachable as long as the table holds it under its own `scope_id`.

* `Live`: every task that is not done and was not cancelled is reachable;
* `Sound`: a step leaves the server in such a state, with one live task for a `scope_id` at most, and a
  checker takes only done instances off the table;
* `NotRecreated`: no instance was made under the `scope_id` of an entry between the checker's snapshot and
  its deletion of the entry, unless the new one is done as well;
* `sound_iff_notRecreated`: the runs of sound steps are those where every step of a checker meets the latter.
-/

namespace Asgiref.Server

open Asgiref.Lib Asgiref.Python

variable {K Scope Time : Type}

/-! ### What a checker deletes -/

namespace State

/-- The entries of the snapshot that the loop deletes before it is suspended again or ends. -/
def deletions (s : State K Scope Time) : List (K × Nat) → List (K × Nat)
  | [] => []
  | (scopeId, future) :: rest =>
    match s.outcome future with
    | none => deletions s rest
    | some .returned | some (.raised _ (.ok false)) => (scopeId, future) :: deletions s rest
    | some .cancelled | some (.raised _ (.ok true)) | some (.raised _ (.error _)) => []

/-- What the checker deletes is done. -/
theorem done_of_mem_deletions {s : State K Scope Time} {l : List (K × Nat)} {p : K × Nat} (h : p ∈ s.deletions l) :
    s.done p.2 = true ∧ p ∈ l := by
  induction l with
  | nil => cases h
  | cons q l ih =>
    obtain ⟨k, n⟩ := q
    simp only [deletions] at h
    cases ho : s.outcome n with
    | none =>
      have hp := ih (by simpa [ho] using h)
      exact ⟨hp.1, List.mem_cons_of_mem _ hp.2⟩
    | some o =>
      have hcons : p ∈ (k, n) :: s.deletions l := by
        cases o with
        | returned => simpa [ho] using h
        | cancelled => simp [ho] at h
        | raised e truth =>
          obtain e' | b := truth
          · simp [ho] at h
          · cases b <;> simp [ho] at h
            exact List.mem_cons.2 h
      obtain rfl | hp := List.mem_cons.1 hcons
      · exact ⟨by simp [done, ho], List.mem_cons_self ..⟩
      · exact ⟨(ih hp).1, List.mem_cons_of_mem _ (ih hp).2⟩

end State

variable [DecidableEq K]

/-! ### Reachable tasks -/

/-- **Reachable tasks.**  Every running task is in the table under its own `scope_id`. -/
def Live (s : State K Scope Time) : Prop :=
  ∀ n t, s.tasks[n]? = some t → t.Running → ∃ d, s.instances.lookup t.scopeId = some d ∧ d.future = n

/-- The table holds only tasks, each under its own `scope_id`. -/
def Tagged (s : State K Scope Time) : Prop :=
  ∀ k d, s.instances.lookup k = some d → ∃ t, s.tasks[d.future]? = some t ∧ t.scopeId = k

/-- There is one running task for a `scope_id` at most. -/
theorem Live.unique {s : State K Scope Time} (h : Live s) {n m : Nat} {t u : AppTask K} (ht : s.tasks[n]? = some t)
    (hu : s.tasks[m]? = some u) (hrt : t.Running) (hru : u.Running) (hk : t.scopeId = u.scopeId) : n = m := by
  obtain ⟨d, hd, rfl⟩ := h n t ht hrt
  obtain ⟨d', hd', rfl⟩ := h m u hu hru
  rw [hk, hd'] at hd
  rw [Option.some.inj hd]

/-! ### One round of a checker -/

namespace State

/-- The table without the given entries. -/
def removeAll (s : State K Scope Time) (l : List (K × Nat)) : State K Scope Time :=
  l.foldl (fun s p => s.remove p.1) s

@[simp] theorem removeAll_nil (s : State K Scope Time) : s.removeAll [] = s := rfl
@[simp] theorem removeAll_cons (s : State K Scope Time) (p : K × Nat) (l : List (K × Nat)) :
    s.removeAll (p :: l) = (s.remove p.1).removeAll l := rfl

theorem tasks_removeAll (s : State K Scope Time) (l : List (K × Nat)) : (s.removeAll l).tasks = s.tasks := by
  induction l generalizing s with
  | nil => rfl
  | cons p l ih => rw [removeAll_cons, ih]; rfl

theorem checkers_removeAll (s : State K Scope Time) (l : List (K × Nat)) :
    (s.removeAll l).checkers = s.checkers := by
  induction l generalizing s with
  | nil => rfl
  | cons p l ih => rw [removeAll_cons, ih]; rfl

theorem lookup_removeAll (s : State K Scope Time) (l : List (K × Nat)) (k : K) :
    (s.removeAll l).instances.lookup k = if k ∈ l.map Prod.fst then none else s.instances.lookup k := by
  induction l generalizing s with
  | nil => simp
  | cons p l ih =>
    rw [removeAll_cons, ih, lookup_remove]
    by_cases hp : k = p.1 <;> by_cases hl : k ∈ l.map Prod.fst <;> simp [hp, hl]

theorem deletions_remove (s : State K Scope Time) (k : K) (l : List (K × Nat)) :
    (s.remove k).deletions l = s.deletions l := by
  induction l with
  | nil => rfl
  | cons p l ih => simp only [deletions, outcome_remove, ih]

/-- **One round of the checker** takes these entries off the table and does nothing else to the server. -/
theorem sweep_fst (s : State K Scope Time) (l : List (K × Nat)) : (s.sweep l).1 = s.removeAll (s.deletions l) := by
  induction l generalizing s with
  | nil => rfl
  | cons p l ih =>
    obtain ⟨k, n⟩ := p
    simp only [sweep, deletions]
    cases s.outcome n with
    | none => exact ih s
    | some o =>
      cases o with
      | returned => simpa [deletions_remove] using ih (s.remove k)
      | cancelled => rfl
      | raised e truth =>
        obtain e' | b := truth
        · rfl
        · cases b with
          | true => rfl
          | false => simpa [deletions_remove] using ih (s.remove k)

/-- The checker only awaits `application_exception` for a done task. -/
theorem done_of_sweep {s : State K Scope Time} {l rest : List (K × Nat)} {k : K} {n : Nat} {e : Exn}
    (h : (s.sweep l).2 = .handling k n e rest) : s.done n = true := by
  induction l generalizing s with
  | nil => cases h
  | cons p l ih =>
    obtain ⟨k₀, m⟩ := p
    simp only [sweep] at h
    cases ho : s.outcome m with
    | none => exact ih (by simpa [ho] using h)
    | some o =>
      cases o with
      | returned => exact (ih (s := s.remove k₀) (by simpa [ho] using h) : s.done n = true)
      | cancelled => simp [ho] at h
      | raised e truth =>
        obtain e' | b := truth
        · simp [ho] at h
        · cases b with
          | true =>
            obtain ⟨-, rfl, -⟩ : k₀ = k ∧ m = n ∧ _ := by simpa [ho] using h
            simp [done, ho]
          | false => exact (ih (s := s.remove k₀) (by simpa [ho] using h) : s.done n = true)

end State

/-! ### What the steps keep -/

/-- The invariant of the server. -/
structure Inv (s : State K Scope Time) : Prop where
  live : Live s
  tagged : Tagged s
  /-- the entry a checker has found to be done -/
  handling : ∀ (i : Nat) k n e rest, s.checkers[i]? = some (.handling k n e rest) → s.done n = true

theorem inv_init (maxApplications : Int) : Inv (State.init maxApplications : State K Scope Time) where
  live := fun n t ht => by simp [State.init] at ht
  tagged := fun k d hd => by simp [State.init] at hd
  handling := fun i k n e rest h => by simp [State.init] at h

namespace Inv

variable {s : State K Scope Time}

/-- `future.cancel()` by anybody. -/
theorem cancel (h : Inv s) (n : Nat) : Inv (s.cancel n) where
  live := fun m t ht hrun => by
    rw [State.cancel_instances]
    exact h.live m t (State.of_running_cancel ht hrun).1 hrun
  tagged := fun k d hd => by
    obtain ⟨t, ht, htag⟩ := h.tagged k d (by simpa using hd)
    obtain ⟨t', ht', htag'⟩ := State.exists_task_cancel ht n
    exact ⟨t', ht', htag'.trans htag⟩
  handling := fun i k m e rest hc => by
    rw [State.done_cancel]
    exact h.handling i k m e rest (by simpa using hc)

/-- An entry leaves the table together with a cancellation of its task. -/
theorem evict (h : Inv s) {k : K} {d : Details Scope Time} (hd : s.instances.lookup k = some d) :
    Inv ((s.remove k).cancel d.future) where
  live := fun n t ht hrun => by
    obtain ⟨hn, hne⟩ := State.of_running_cancel ht hrun
    obtain ⟨d', hd', rfl⟩ := h.live n t hn hrun
    have hk : t.scopeId ≠ k := by
      rintro rfl
      rw [hd] at hd'
      exact hne (by rw [Option.some.inj hd'])
    exact ⟨d', by rw [State.cancel_instances, State.lookup_remove, if_neg hk, hd'], rfl⟩
  tagged := fun k' d' hd' => by
    rw [State.cancel_instances, State.lookup_remove] at hd'
    obtain ⟨t, ht, htag⟩ := h.tagged k' d' (by by_cases hk : k' = k <;> simp_all)
    obtain ⟨t', ht', htag'⟩ := State.exists_task_cancel (s := s.remove k) ht d.future
    exact ⟨t', ht', htag'.trans htag⟩
  handling := fun i k' n e rest hc => by
    rw [State.done_cancel]
    exact h.handling i k' n e rest (by simpa using hc)

/-- What leaves the table is done, or under the `scope_id` of something else. -/
theorem removeAll (h : Inv s) {l : List (K × Nat)}
    (hl : ∀ p ∈ l, ∀ d, s.instances.lookup p.1 = some d → s.done d.future = true) : Inv (s.removeAll l) where
  live := fun n t ht hrun => by
    rw [State.tasks_removeAll] at ht
    obtain ⟨d, hd, rfl⟩ := h.live n t ht hrun
    have hnot : t.scopeId ∉ l.map Prod.fst := by
      intro hmem
      obtain ⟨p, hp, hk⟩ := List.mem_map.1 hmem
      obtain ⟨u, hu, hout⟩ := State.done_iff.1 (hl p hp d (by rw [hk, hd]))
      rw [ht] at hu
      cases hu
      exact hout hrun.1
    exact ⟨d, by rw [State.lookup_removeAll, if_neg hnot, hd], rfl⟩
  tagged := fun k d hd => by
    rw [State.lookup_removeAll] at hd
    rw [State.tasks_removeAll]
    exact h.tagged k d (by by_cases hk : k ∈ l.map Prod.fst <;> simp_all)
  handling := fun i k n e rest hc => by
    rw [State.checkers_removeAll] at hc
    rw [State.done, State.outcome, State.tasks_removeAll]
    exact h.handling i k n e rest hc

theorem setChecker (h : Inv s) {i : Nat} {c : Checker K}
    (hc : ∀ k n e rest, c = .handling k n e rest → s.done n = true) : Inv (s.setChecker i c) where
  live := h.live
  tagged := h.tagged
  handling := fun j k n e rest hj => by
    have hj' : (s.checkers.set i c)[j]? = some (.handling k n e rest) := hj
    rw [List.getElem?_set] at hj'
    by_cases hij : i = j
    · by_cases hlt : i < s.checkers.length
      · rw [if_pos hij, if_pos hlt, Option.some.injEq] at hj'
        exact hc k n e rest hj'
      · rw [if_pos hij, if_neg hlt] at hj'
        cases hj'
    · rw [if_neg hij] at hj'
      exact h.handling j k n e rest hj'

theorem startChecker (h : Inv s) : Inv { s with checkers := s.checkers ++ [.sleeping] } where
  live := h.live
  tagged := h.tagged
  handling := fun i k n e rest hi => by
    rw [List.getElem?_append] at hi
    by_cases hlt : i < s.checkers.length
    · rw [if_pos hlt] at hi
      exact h.handling i k n e rest hi
    · rw [if_neg hlt, List.getElem?_singleton] at hi
      by_cases hz : i - s.checkers.length = 0 <;> simp [hz] at hi

/-- A lookup of an instance changes its time only. -/
theorem refresh (h : Inv s) {k : K} {d : Details Scope Time} (hd : s.instances.lookup k = some d) (now : Time) :
    Inv { s with instances := s.instances.set k { d with lastUsed := now } } where
  live := fun n t ht hrun => by
    obtain ⟨d', hd', rfl⟩ := h.live n t ht hrun
    by_cases hk : t.scopeId = k
    · subst hk
      rw [hd] at hd'
      exact ⟨_, Dict.lookup_set_self .., by rw [Option.some.inj hd']⟩
    · exact ⟨d', by rw [Dict.lookup_set_ne hk, hd'], rfl⟩
  tagged := fun k' d' hd' => by
    by_cases hk : k' = k
    · subst hk
      rw [Dict.lookup_set_self] at hd'
      cases hd'
      exact h.tagged k' d hd
    · rw [Dict.lookup_set_ne hk] at hd'
      exact h.tagged k' d' hd'
  handling := h.handling

/-- A new instance gets a task of its own. -/
theorem create (h : Inv s) {k : K} (hk : s.instances.lookup k = none) (scope : Scope) (now : Time) :
    Inv { s with
      tasks := s.tasks ++ [{ scopeId := k, outcome := none, cancelled := false }]
      instances := s.instances.set k
        { inputQueue := s.tasks.length, future := s.tasks.length, scope, lastUsed := now } } where
  live := fun n t ht hrun => by
    rw [List.getElem?_append] at ht
    by_cases hlt : n < s.tasks.length
    · rw [if_pos hlt] at ht
      obtain ⟨d, hd, rfl⟩ := h.live n t ht hrun
      have hne : t.scopeId ≠ k := by
        rintro rfl
        rw [hk] at hd
        cases hd
      exact ⟨d, by rw [Dict.lookup_set_ne hne, hd], rfl⟩
    · rw [if_neg hlt, List.getElem?_singleton] at ht
      by_cases hz : n - s.tasks.length = 0
      · rw [if_pos hz] at ht
        cases ht
        exact ⟨_, Dict.lookup_set_self .., by simp; omega⟩
      · rw [if_neg hz] at ht
        cases ht
  tagged := fun k' d hd => by
    by_cases hne : k' = k
    · subst hne
      rw [Dict.lookup_set_self] at hd
      cases hd
      exact ⟨_, List.getElem?_concat_length, rfl⟩
    · rw [Dict.lookup_set_ne hne] at hd
      obtain ⟨t, ht, htag⟩ := h.tagged k' d hd
      have hlt := (List.getElem?_eq_some_iff.1 ht).1
      exact ⟨t, (List.getElem?_append_left hlt).trans ht, htag⟩
  handling := fun i k' n e rest hi => by
    obtain ⟨t, ht, ho⟩ := State.done_iff.1 (h.handling i k' n e rest hi)
    have hlt := (List.getElem?_eq_some_iff.1 ht).1
    exact State.done_iff.2 ⟨t, (List.getElem?_append_left hlt).trans ht, ho⟩

theorem finish (h : Inv s) {s' : State K Scope Time} {n : Nat} {o : Outcome} (hs : s.finish n o = some s') :
    Inv s' := by
  obtain ⟨t, ht, -, rfl⟩ := State.finish_eq_some.1 hs
  have hlt : n < s.tasks.length := (List.getElem?_eq_some_iff.1 ht).1
  refine ⟨fun m u hu hrun => ?_, fun k d hd => ?_, fun i k m e rest hc => ?_⟩
  · by_cases hm : m = n
    · subst hm
      simp only [List.getElem?_set_self hlt, Option.some.injEq] at hu
      subst hu
      cases hrun.1
    · exact h.live m u (by simpa [List.getElem?_set_ne (Ne.symm hm)] using hu) hrun
  · obtain ⟨u, hu, htag⟩ := h.tagged k d hd
    by_cases hm : d.future = n
    · subst hm
      rw [ht] at hu
      exact ⟨_, List.getElem?_set_self hlt, by rw [← htag, Option.some.inj hu]⟩
    · exact ⟨u, by simpa [List.getElem?_set_ne (Ne.symm hm)] using hu, htag⟩
  · obtain ⟨u, hu, hout⟩ := State.done_iff.1 (h.handling i k m e rest hc)
    by_cases hm : m = n
    · subst hm
      exact State.done_iff.2 ⟨_, List.getElem?_set_self hlt, by simp⟩
    · exact State.done_iff.2 ⟨u, by simpa [List.getElem?_set_ne (Ne.symm hm)] using hu, hout⟩

end Inv

/-! ### The steps of a checker -/

/-- What the step of a checker deletes: the entry it has reported, and those of the rest of its snapshot up
to its next suspension or its end. -/
def State.deletedBy (s : State K Scope Time) : Action K Scope Time → List (K × Nat)
  | .wake _ => s.deletions s.snapshot
  | .handled i (.ok ()) =>
    match s.checkers[i]? with
    | some (.handling scopeId future _ rest) => (scopeId, future) :: s.deletions rest
    | _ => []
  | _ => []

/-- **The condition on the checker's steps.**  What the table holds under the `scope_id` of an entry to be
deleted is this entry, as in the snapshot, or another one that is done as well. -/
def NotRecreated (s : State K Scope Time) (a : Action K Scope Time) : Prop :=
  ∀ p ∈ s.deletedBy a, ∀ d, s.instances.lookup p.1 = some d → d.future = p.2 ∨ s.done d.future = true

/-- The steps of a checker. -/
def Action.OfChecker : Action K Scope Time → Prop
  | .wake _ | .handled .. => True
  | _ => False

instance (s : State K Scope Time) (a : Action K Scope Time) : Decidable (NotRecreated s a) :=
  decidable_of_iff (∀ p ∈ s.deletedBy a, (s.instances.lookup p.1).all fun d => d.future = p.2 ∨ s.done d.future = true)
    (by simp [NotRecreated, Option.all_eq_true])

/-- What a checker has in hand when it deletes is done. -/
theorem done_of_mem_deletedBy {s : State K Scope Time} (h : Inv s) {a : Action K Scope Time} {p : K × Nat}
    (hp : p ∈ s.deletedBy a) : s.done p.2 = true := by
  unfold State.deletedBy at hp
  split at hp
  · exact (State.done_of_mem_deletions hp).1
  · split at hp
    · next hc =>
      obtain rfl | hp := List.mem_cons.1 hp
      · exact h.handling _ _ _ _ _ hc
      · exact (State.done_of_mem_deletions hp).1
    · cases hp
  · cases hp

variable [LinearOrder Time]

theorem inv_getOrCreate {s : State K Scope Time} (h : Inv s) (k : K) (scope : Scope) (now : Time)
    (app : Option Exn) : Inv (s.getOrCreateApplicationInstance k scope now app).1 := by
  cases hk : s.instances.lookup k with
  | some d =>
    simp only [State.getOrCreateApplicationInstance, hk]
    exact h.refresh hk now
  | none =>
    have hroom := State.makeRoom_induction (I := fun t => Inv t ∧ t.instances.lookup k = none)
      (fun t k' d ht _ hd => ⟨ht.1.evict hd, by simp [ht.2]⟩) (s.instances.length + 1) ⟨h, hk⟩
    simp only [State.getOrCreateApplicationInstance, hk]
    rcases hr : s.makeRoom (s.instances.length + 1) with ⟨s', _ | _⟩
    · rw [hr] at hroom
      exact hroom.1
    · rw [hr] at hroom
      cases app with
      | some e => exact hroom.1
      | none => exact hroom.1.create hroom.2 scope now

/-! ### Runs -/

/-- **A sound step.** -/
structure Sound (s : State K Scope Time) (a : Action K Scope Time) (s' : State K Scope Time) : Prop where
  /-- every running task is in the table under its own `scope_id` -/
  live : Live s'
  /-- there is one for a `scope_id` at most -/
  unique : ∀ (n m : Nat) (t u : AppTask K), s'.tasks[n]? = some t → s'.tasks[m]? = some u → t.Running → u.Running →
    t.scopeId = u.scopeId → n = m
  /-- a checker takes only done instances off the table -/
  removed : a.OfChecker → ∀ k d, s.instances.lookup k = some d → s'.instances.lookup k = none →
    s.done d.future = true

/-- **What a checker's step does**: it deletes these entries and moves the checker. -/
theorem step_of_checker {s s' : State K Scope Time} {a : Action K Scope Time} (hs : step s a = some s')
    (ha : a.OfChecker) : ∃ i c, s' = (s.removeAll (s.deletedBy a)).setChecker i c ∧
      ∀ k n e rest, c = .handling k n e rest → s.done n = true := by
  cases a with
  | wake i =>
    simp only [step] at hs
    split at hs
    · cases hs
      exact ⟨i, _, by rw [State.pass, State.sweep_fst]; rfl, fun _ _ _ _ => State.done_of_sweep⟩
    · cases hs
  | handled i r =>
    simp only [step] at hs
    split at hs
    · next k n e rest hc =>
      cases hs
      refine ⟨i, ((s.remove k).sweep rest).2, ?_, fun _ _ _ _ => State.done_of_sweep (s := s.remove k)⟩
      rw [State.pass, State.sweep_fst, State.deletions_remove]
      simp only [State.deletedBy, hc, State.removeAll_cons]
    · cases hs
      exact ⟨i, _, rfl, fun _ _ _ _ h => by cases h⟩
    · cases hs
  | _ => exact ha.elim

/-- **A step that meets the condition** keeps the invariant and is sound. -/
theorem sound_of_notRecreated {s s' : State K Scope Time} {a : Action K Scope Time} (h : Inv s)
    (hC : NotRecreated s a) (hs : step s a = some s') : Sound s a s' ∧ Inv s' := by
  have hdone : ∀ p ∈ s.deletedBy a, ∀ d, s.instances.lookup p.1 = some d → s.done d.future = true := by
    intro p hp d hd
    obtain heq | hnew := hC p hp d hd
    · rw [heq]
      exact done_of_mem_deletedBy h hp
    · exact hnew
  have hinv : Inv s' := by
    cases a with
    | getOrCreate k scope now app => cases hs; exact inv_getOrCreate h k scope now app
    | delete k =>
      cases hs
      cases hk : s.instances.lookup k with
      | none => rw [State.deleteApplicationInstance_of_none hk]; exact h
      | some d => rw [State.deleteApplicationInstance_of_lookup hk]; exact h.evict hk
    | deleteOldest =>
      cases hs
      obtain ⟨-, hs, -⟩ | ⟨k, d, hd, hs⟩ := s.deleteOldestApplicationInstance_cases
      · rw [hs]; exact h
      · rw [hs]; exact h.evict hd
    | finish n o => exact h.finish hs
    | cancel n => cases hs; exact h.cancel n
    | startChecker => cases hs; exact h.startChecker
    | wake | handled =>
      obtain ⟨i, c, rfl, hc⟩ := step_of_checker hs trivial
      refine (h.removeAll hdone).setChecker fun k n e rest hh => ?_
      rw [State.done, State.outcome, State.tasks_removeAll]
      exact hc k n e rest hh
    | cancelChecker i =>
      simp only [step] at hs
      split at hs
      · cases hs; exact h.setChecker fun _ _ _ _ hc => by cases hc
      · cases hs; exact h.setChecker fun _ _ _ _ hc => by cases hc
      · cases hs
  refine ⟨⟨hinv.live, fun n m t u ht hu hrt hru => hinv.live.unique ht hu hrt hru, fun ha k d hd hnone => ?_⟩, hinv⟩
  obtain ⟨i, c, rfl, -⟩ := step_of_checker hs ha
  have hmem : k ∈ (s.deletedBy a).map Prod.fst := by
    by_contra hnot
    have hkeep : (s.removeAll (s.deletedBy a)).instances.lookup k = some d := by
      rw [State.lookup_removeAll, if_neg hnot, hd]
    rw [show (s.removeAll (s.deletedBy a)).instances.lookup k = none from hnone] at hkeep
    cases hkeep
  obtain ⟨p, hp, rfl⟩ := List.mem_map.1 hmem
  exact hdone p hp d hd

/-- **A step that breaks the condition** takes an instance off the table that is not done. -/
theorem not_sound_of_recreated {s s' : State K Scope Time} {a : Action K Scope Time}
    (hC : ¬ NotRecreated s a) (hs : step s a = some s') : ¬ Sound s a s' := by
  intro hsound
  simp only [NotRecreated, not_forall, not_or] at hC
  obtain ⟨p, hp, d, hd, -, hnot⟩ := hC
  have ha : a.OfChecker := by
    cases a with
    | wake | handled => trivial
    | _ => cases hp
  obtain ⟨i, c, rfl, -⟩ := step_of_checker hs ha
  refine hnot (hsound.removed ha p.1 d hd ?_)
  have hmem : p.1 ∈ (s.deletedBy a).map Prod.fst := List.mem_map_of_mem hp
  exact (State.lookup_removeAll ..).trans (if_pos hmem)

/-- **No live application is dropped**, in exactly those runs where nothing is made anew under the `scope_id`
of an entry that a checker goes on to delete. -/
theorem sound_iff_notRecreated {maxApplications : Int} {as : List (Action K Scope Time)} {s : State K Scope Time}
    (hrun : machine.run (State.init maxApplications) as = some s) :
    machine.Along Sound (State.init maxApplications) as ↔
      machine.Meets NotRecreated (State.init maxApplications) as := by
  refine machine.along_iff_meets ?_ ?_ (inv_init maxApplications) hrun
  · intro s a s' h hC hs
    exact sound_of_notRecreated h hC hs
  · intro s a s' _ hC hs
    exact not_sound_of_recreated hC hs

/-- A client is reported, its instance deleted and made anew while `application_exception` is awaited. -/
def recreated : List (Action Nat Unit Nat) :=
  [.startChecker, .getOrCreate 7 () 0 none, .finish 0 (.raised (.valueError "boom") (.ok true)), .wake 0,
    .delete 7, .getOrCreate 7 () 1 none, .handled 0 (.ok ())]

/-- The new application runs on, and the table has lost it. -/
theorem recreated_dropped : ∃ s : State Nat Unit Nat, machine.run (State.init 10) recreated = some s ∧
    s.instances.lookup 7 = none ∧ ¬ Live s := by
  refine ⟨_, rfl, rfl, fun hlive => ?_⟩
  obtain ⟨d, hd, -⟩ := hlive 1 _ rfl ⟨rfl, rfl⟩
  cases hd

/-- Two instances, the first of which fails; the second ends while the failure is reported. -/
theorem sound_of_reported : machine.Along Sound (State.init 10 : State Nat Unit Nat)
    [.startChecker, .getOrCreate 7 () 0 none, .getOrCreate 8 () 1 none,
      .finish 0 (.raised (.valueError "boom") (.ok true)), .wake 0, .finish 1 .returned, .handled 0 (.ok ())] :=
  (sound_iff_notRecreated rfl).2 (by decide)

end Asgiref.Server
