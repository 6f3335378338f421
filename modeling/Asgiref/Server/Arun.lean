import Asgiref.Server.Tasks

/-!
# The application checker and `arun`

`arun` gathers a checker with `handle()`.  In its runs application tasks end in any way, and `application_exception`
returns.

* `Served`, `served` — a server on which `arun` runs, and its steps;
* `State.visited`, `State.unreadable` — what a checker looks at in one step, and the tasks it cannot read;
* `sweep_readable`, `sweep_unreadable` — the loop of the checker over readable tasks, and over others;
* `survives_iff_readable` — when the checker survives every application, and `arun` with it.
-/

namespace Asgiref.Server

open Asgiref.Lib Asgiref.Python

variable {K Scope Time : Type}

/-! ### `arun` -/

/-- A server, and how `arun` has ended, if it has.  Its checker is the first one. -/
structure Served (K Scope Time : Type) where
  server : State K Scope Time
  arun : Option (Result Unit)

/-- `arun` has started its checker and `handle()`. -/
def Served.init (maxApplications : Int) : Served K Scope Time :=
  ⟨{ State.init maxApplications with checkers := [.sleeping] }, none⟩

/-- `await asyncio.gather(self.application_checker(), handle())`, which an exception of the checker ends. -/
def Served.gather (x : Served K Scope Time) : Served K Scope Time :=
  match x.arun, x.server.checkers[(0 : Nat)]? with
  | none, some (.ended e) => { x with arun := some (.error e) }
  | _, _ => x

/-- While `arun` runs, its checker has not ended. -/
def Served.Waits (x : Served K Scope Time) : Prop :=
  x.arun = none → ∀ e, x.server.checkers[(0 : Nat)]? ≠ some (.ended e)

theorem gather_of_waits {x : Served K Scope Time} (h : x.Waits) : x.gather = x := by
  unfold Served.gather
  split
  · next e harun he => exact absurd he (h harun e)
  · rfl

theorem server_gather (x : Served K Scope Time) : x.gather.server = x.server := by
  unfold Served.gather
  split <;> rfl

/-- What the runs consist of: `application_exception` returns, and nobody cancels a checker. -/
def Action.normal : Action K Scope Time → Bool
  | .handled _ (.error _) | .cancelChecker _ => false
  | _ => true

/-- The checker that takes the step. -/
def Action.checker : Action K Scope Time → Option Nat
  | .wake i | .handled i _ => some i
  | _ => none

inductive ServedAction (K Scope Time : Type) where
  | server (a : Action K Scope Time)
  /-- `self.handle()` ends: after a return `Done` is raised, which `arun` catches -/
  | handle (r : Result Unit)

section

variable [DecidableEq K] [LinearOrder Time]

def Served.step (x : Served K Scope Time) : ServedAction K Scope Time → Option (Served K Scope Time)
  | .server a => if a.normal then (Server.step x.server a).map fun s => Served.gather { x with server := s } else none
  | .handle r => if x.arun.isNone then some { x with arun := some r } else none

def served : Machine (Served K Scope Time) (ServedAction K Scope Time) := ⟨Served.step⟩

end

/-! ### What a checker looks at -/

/-- What a checker has still to deal with: the entry it reports, and the rest of its snapshot. -/
def Checker.todo : Checker K → List (K × Nat)
  | .handling scopeId future _ rest => (scopeId, future) :: rest
  | .sleeping | .ended _ => []

namespace State

/-- `exception()` of the task raises, or `bool` of what it returns does. -/
def unreadable (s : State K Scope Time) (future : Nat) : Bool :=
  match s.outcome future with
  | some .cancelled | some (.raised _ (.error _)) => true
  | _ => false

/-- `application_exception` is awaited for the task. -/
def reports (s : State K Scope Time) (future : Nat) : Bool :=
  match s.outcome future with
  | some (.raised _ (.ok true)) => true
  | _ => false

/-- The entries that the loop looks at until `application_exception` is awaited. -/
def visited (s : State K Scope Time) (l : List (K × Nat)) : List (K × Nat) := l.takeWhile fun p => !s.reports p.2

theorem visited_cons_of_reports {s : State K Scope Time} {l : List (K × Nat)} {k : K} {n : Nat}
    (h : s.reports n = true) : s.visited ((k, n) :: l) = [] := by
  simp [visited, h]

theorem visited_cons_of_not_reports {s : State K Scope Time} {l : List (K × Nat)} {k : K} {n : Nat}
    (h : s.reports n = false) : s.visited ((k, n) :: l) = (k, n) :: s.visited l := by
  simp [visited, h]

variable [DecidableEq K]

/-- The entries that the step of a checker goes over. -/
def ahead (s : State K Scope Time) : Action K Scope Time → List (K × Nat)
  | .wake _ => s.snapshot
  | .handled i _ =>
    match s.checkers[i]? with
    | some (.handling _ _ _ rest) => rest
    | _ => []
  | _ => []

end State

variable [DecidableEq K]

/-- **The checker survives the step.** -/
structure Survives (x : Served K Scope Time) (a : ServedAction K Scope Time) (x' : Served K Scope Time) : Prop where
  /-- no pass raises -/
  raises : ∀ (i : Nat) e, x'.server.checkers[i]? = some (.ended e) → x.server.checkers[i]? = some (.ended e)
  /-- an entry found to be done leaves the table, unless it is yet to be reported or looked at -/
  removes : ∀ b i, a = .server b → b.checker = some i → ∀ p ∈ x.server.ahead b, x.server.done p.2 = true →
    x'.server.instances.lookup p.1 = none ∨ ∃ c, x'.server.checkers[i]? = some c ∧ p ∈ c.todo
  /-- so does the entry that has been reported -/
  reported : ∀ b i k n e rest, a = .server b → b.checker = some i →
    x.server.checkers[i]? = some (.handling k n e rest) → x'.server.instances.lookup k = none
  /-- `arun` ends by `handle()` only -/
  arun : x.arun = none → x'.arun ≠ none → ∃ r, a = .handle r

/-- **The condition on the steps.**  Every task that a checker looks at can be read. -/
def Readable (x : Served K Scope Time) : ServedAction K Scope Time → Prop
  | .server a => ∀ p ∈ x.server.visited (x.server.ahead a), x.server.unreadable p.2 = false
  | .handle _ => True

instance (x : Served K Scope Time) : ∀ b, Decidable (Readable x b)
  | .server a => inferInstanceAs (Decidable (∀ p ∈ x.server.visited (x.server.ahead a), _))
  | .handle _ => isTrue trivial

/-! ### One round of the loop -/

namespace State

variable {s : State K Scope Time} {l : List (K × Nat)}

/-- What is not in the table is not there after the loop. -/
theorem lookup_sweep_of_none {k : K} (h : s.instances.lookup k = none) : (s.sweep l).1.instances.lookup k = none := by
  rw [sweep_fst, lookup_removeAll, h, ite_self]

theorem checkers_sweep : (s.sweep l).1.checkers = s.checkers := by
  rw [sweep_fst, checkers_removeAll]

/-- **One round of the loop**: it ends the checker, awaits `application_exception`, or goes on, after a deletion if the task
is done. -/
theorem sweep_cons (s : State K Scope Time) (k : K) (n : Nat) (l : List (K × Nat)) :
    (s.unreadable n = true ∧ s.reports n = false ∧ ∃ e, s.sweep ((k, n) :: l) = (s, .ended e)) ∨
    (s.unreadable n = false ∧ s.reports n = true ∧ ∃ e, s.sweep ((k, n) :: l) = (s, .handling k n e l)) ∨
    (s.unreadable n = false ∧ s.reports n = false ∧
      (s.done n = false ∧ s.sweep ((k, n) :: l) = s.sweep l ∨ s.sweep ((k, n) :: l) = (s.remove k).sweep l)) := by
  cases ho : s.outcome n with
  | none => simp [unreadable, reports, sweep, done, ho]
  | some o =>
    cases o with
    | returned => simp [unreadable, reports, sweep, ho]
    | cancelled => simp [unreadable, reports, sweep, ho]
    | raised e truth =>
      obtain e' | b := truth
      · simp [unreadable, reports, sweep, ho]
      · cases b with
        | true => simp [unreadable, reports, sweep, ho]
        | false => simp [unreadable, reports, sweep, ho]

/-- **The loop over tasks that can be read** does not end the checker, and removes what it finds done. -/
theorem sweep_readable (h : ∀ p ∈ s.visited l, s.unreadable p.2 = false) :
    (∀ e, (s.sweep l).2 ≠ .ended e) ∧ ∀ p ∈ l, s.done p.2 = true →
      (s.sweep l).1.instances.lookup p.1 = none ∨ p ∈ (s.sweep l).2.todo := by
  induction l generalizing s with
  | nil => exact ⟨nofun, nofun⟩
  | cons q l ih =>
    obtain ⟨k, n⟩ := q
    obtain ⟨hread, hrep, -⟩ | ⟨-, -, e, hsweep⟩ | ⟨-, hrep, hnext⟩ := s.sweep_cons k n l
    · rw [visited_cons_of_not_reports hrep] at h
      rw [h (k, n) (.head _)] at hread
      cases hread
    · rw [hsweep]
      exact ⟨nofun, fun p hp _ => .inr hp⟩
    · rw [visited_cons_of_not_reports hrep] at h
      have hrest : ∀ p ∈ s.visited l, s.unreadable p.2 = false := fun p hp => h p (.tail _ hp)
      obtain ⟨hnot, hsweep⟩ | hsweep := hnext
      · obtain ⟨hends, hgone⟩ := ih hrest
        rw [hsweep]
        refine ⟨hends, fun p hp hdone => ?_⟩
        obtain rfl | hp := List.mem_cons.1 hp
        · rw [hnot] at hdone
          cases hdone
        · exact hgone p hp hdone
      · obtain ⟨hends, hgone⟩ := ih (s := s.remove k) hrest
        rw [hsweep]
        refine ⟨hends, fun p hp hdone => ?_⟩
        obtain rfl | hp := List.mem_cons.1 hp
        · exact .inl (lookup_sweep_of_none (by simp))
        · exact hgone p hp hdone

/-- **The loop over a task that cannot be read** ends the checker. -/
theorem sweep_unreadable (h : ∃ p ∈ s.visited l, s.unreadable p.2 = true) : ∃ e, (s.sweep l).2 = .ended e := by
  induction l generalizing s with
  | nil =>
    obtain ⟨p, hp, -⟩ := h
    cases hp
  | cons q l ih =>
    obtain ⟨k, n⟩ := q
    obtain ⟨p, hp, hread⟩ := h
    obtain ⟨-, -, e, hsweep⟩ | ⟨-, hrep, -⟩ | ⟨hnot, hrep, hnext⟩ := s.sweep_cons k n l
    · rw [hsweep]
      exact ⟨e, rfl⟩
    · rw [visited_cons_of_reports hrep] at hp
      cases hp
    · rw [visited_cons_of_not_reports hrep] at hp
      have hrest : p ∈ s.visited l := by
        obtain rfl | hp := List.mem_cons.1 hp
        · rw [hnot] at hread
          cases hread
        · exact hp
      obtain ⟨-, hsweep⟩ | hsweep := hnext
      · rw [hsweep]
        exact ih ⟨p, hrest, hread⟩
      · rw [hsweep]
        exact ih (s := s.remove k) ⟨p, hrest, hread⟩

/-! ### The step of a checker -/

theorem checkers_pass_self {i : Nat} {c : Checker K} (h : s.checkers[i]? = some c) :
    (s.pass i l).checkers[i]? = some (s.sweep l).2 := by
  have hlt : i < (s.sweep l).1.checkers.length := by
    rw [checkers_sweep]
    exact (List.getElem?_eq_some_iff.1 h).1
  exact List.getElem?_set_self hlt

theorem checkers_pass_ne {i j : Nat} (h : i ≠ j) : (s.pass i l).checkers[j]? = s.checkers[j]? := by
  have hset : (s.pass i l).checkers[j]? = (s.sweep l).1.checkers[j]? := List.getElem?_set_ne h
  rw [hset, checkers_sweep]

end State

variable [LinearOrder Time] {s s' : State K Scope Time} {a : Action K Scope Time}

/-- A checker that takes a step has been suspended, and goes over what is ahead of it. -/
theorem step_checker (hs : step s a = some s') (hn : a.normal = true) {i : Nat} (hi : a.checker = some i) :
    ∃ c, s.checkers[i]? = some c ∧ (c = .sleeping ∧ s' = s.pass i (s.ahead a) ∨
      ∃ k n e rest, c = .handling k n e rest ∧ s' = (s.remove k).pass i (s.ahead a)) := by
  cases a with
  | wake j =>
    cases hi
    simp only [step] at hs
    split at hs
    · next hc =>
      cases hs
      exact ⟨.sleeping, hc, .inl ⟨rfl, rfl⟩⟩
    · cases hs
  | handled j r =>
    cases hi
    simp only [step] at hs
    split at hs
    · next k n e rest hc =>
      cases hs
      exact ⟨.handling k n e rest, hc, .inr ⟨k, n, e, rest, rfl, by simp only [State.ahead, hc]⟩⟩
    · cases hn
    · cases hs
  | _ => cases hi

/-- Other steps end no checker. -/
theorem ended_of_step (hs : step s a = some s') (hn : a.normal = true) (hi : a.checker = none) {i : Nat} {e : Exn}
    (he : s'.checkers[i]? = some (.ended e)) : s.checkers[i]? = some (.ended e) := by
  suffices h : s'.checkers = s.checkers ∨ s'.checkers = s.checkers ++ [.sleeping] by
    obtain h | h := h
    · rwa [h] at he
    · rw [h, List.getElem?_append] at he
      split at he
      · exact he
      · rw [List.getElem?_singleton] at he
        split at he <;> cases he
  cases a with
  | getOrCreate k scope now app =>
    cases hs
    left
    have hroom := State.makeRoom_induction (I := fun t => t.checkers = s.checkers)
      (fun t k d ht _ _ => by simpa using ht) (s.instances.length + 1) rfl
    cases hk : s.instances.lookup k with
    | some d => simp only [State.getOrCreateApplicationInstance, hk]
    | none =>
      simp only [State.getOrCreateApplicationInstance, hk]
      rcases hr : s.makeRoom (s.instances.length + 1) with ⟨t, e | _⟩ <;> rw [hr] at hroom
      · exact hroom
      · cases app <;> exact hroom
  | delete k =>
    cases hs
    left
    cases hk : s.instances.lookup k with
    | none => rw [State.deleteApplicationInstance_of_none hk]
    | some d => rw [State.deleteApplicationInstance_of_lookup hk, State.cancel_checkers, State.checkers_remove]
  | deleteOldest =>
    cases hs
    left
    obtain ⟨-, hs, -⟩ | ⟨k, d, hd, hs⟩ := s.deleteOldestApplicationInstance_cases
    · rw [hs]
    · rw [hs, State.cancel_checkers, State.checkers_remove]
  | finish n o =>
    obtain ⟨t, -, -, rfl⟩ := State.finish_eq_some.1 hs
    exact .inl rfl
  | cancel n =>
    cases hs
    exact .inl (s.cancel_checkers n)
  | startChecker =>
    cases hs
    exact .inr rfl
  | wake j => cases hi
  | handled j r => cases hi
  | cancelChecker j => cases hn

/-! ### Runs -/

/-- What the step of a checker leaves of it, and of the table. -/
theorem survives_checker (hs : step s a = some s') (hn : a.normal = true) {i : Nat} (hi : a.checker = some i)
    (hC : ∀ p ∈ s.visited (s.ahead a), s.unreadable p.2 = false) :
    (∀ (j : Nat) e, s'.checkers[j]? = some (.ended e) → s.checkers[j]? = some (.ended e)) ∧
    (∀ p ∈ s.ahead a, s.done p.2 = true →
      s'.instances.lookup p.1 = none ∨ ∃ c, s'.checkers[i]? = some c ∧ p ∈ c.todo) ∧
    ∀ k n e rest, s.checkers[i]? = some (.handling k n e rest) → s'.instances.lookup k = none := by
  obtain ⟨c, hc, hstep⟩ := step_checker hs hn hi
  -- The loop goes over the table as it is, or without the entry that was reported.
  obtain ⟨t, hchk, hread, hdone, hgone, rfl⟩ : ∃ t : State K Scope Time, t.checkers = s.checkers ∧
      (∀ p ∈ t.visited (s.ahead a), t.unreadable p.2 = false) ∧ (∀ n, s.done n = t.done n) ∧
      (∀ k n e rest, c = .handling k n e rest → t.instances.lookup k = none) ∧ s' = t.pass i (s.ahead a) := by
    obtain ⟨rfl, rfl⟩ | ⟨k, n, e, rest, rfl, rfl⟩ := hstep
    · exact ⟨s, rfl, hC, fun _ => rfl, nofun, rfl⟩
    · refine ⟨s.remove k, rfl, hC, fun _ => rfl, fun k' n' e' rest' h => ?_, rfl⟩
      cases h
      simp
  have hself : (t.pass i (s.ahead a)).checkers[i]? = some (t.sweep (s.ahead a)).2 :=
    State.checkers_pass_self (by rw [hchk]; exact hc)
  obtain ⟨hends, hremoves⟩ := State.sweep_readable hread
  refine ⟨fun j e he => ?_, fun p hp hd => ?_, fun k n e rest hh => ?_⟩
  · by_cases hij : i = j
    · subst hij
      exact absurd (Option.some.inj (hself.symm.trans he)) (hends e)
    · rwa [State.checkers_pass_ne hij, hchk] at he
  · exact (hremoves p hp ((hdone p.2).symm.trans hd)).imp_right fun htodo => ⟨_, hself, htodo⟩
  · exact State.lookup_sweep_of_none (hgone k n e rest (Option.some.inj (hc.symm.trans hh)))

/-- **A step that meets the condition.** -/
theorem survives_of_readable {x x' : Served K Scope Time} {b : ServedAction K Scope Time} (hx : x.Waits)
    (hC : Readable x b) (hs : x.step b = some x') : Survives x b x' ∧ x'.Waits := by
  cases b with
  | handle r =>
    simp only [Served.step, Option.ite_none_right_eq_some, Option.some.injEq] at hs
    obtain ⟨-, rfl⟩ := hs
    have hnot : ∀ b : Action K Scope Time, ServedAction.handle r ≠ .server b := nofun
    refine ⟨⟨fun _ _ h => h, fun b _ hb => absurd hb (hnot b), fun b _ _ _ _ _ hb => absurd hb (hnot b),
      fun _ _ => ⟨r, rfl⟩⟩, ?_⟩
    intro hnone
    cases hnone
  | server a =>
    simp only [Served.step, Option.ite_none_right_eq_some, Option.map_eq_some_iff] at hs
    obtain ⟨hn, s', hs, rfl⟩ := hs
    obtain ⟨hraises, hremoves, hreported⟩ :
        (∀ (j : Nat) e, s'.checkers[j]? = some (.ended e) → x.server.checkers[j]? = some (.ended e)) ∧
        (∀ i, a.checker = some i → ∀ p ∈ x.server.ahead a, x.server.done p.2 = true →
          s'.instances.lookup p.1 = none ∨ ∃ c, s'.checkers[i]? = some c ∧ p ∈ c.todo) ∧
        ∀ i k n e rest, a.checker = some i → x.server.checkers[i]? = some (.handling k n e rest) →
          s'.instances.lookup k = none := by
      cases hi : a.checker with
      | none => exact ⟨fun j e he => ended_of_step hs hn hi he, nofun, nofun⟩
      | some i =>
        obtain ⟨hraises, hremoves, hreported⟩ := survives_checker hs hn hi hC
        refine ⟨hraises, fun i' hi' => ?_, fun i' k n e rest hi' => ?_⟩
        · cases hi'
          exact hremoves
        · cases hi'
          exact hreported k n e rest
    have hwaits : Served.Waits { x with server := s' } := fun hnone e he => hx hnone e (hraises 0 e he)
    rw [gather_of_waits hwaits]
    refine ⟨⟨hraises, fun b i hb hi => ?_, fun b i k n e rest hb hi hh => ?_, fun h h' => absurd h h'⟩, hwaits⟩
    · cases hb
      exact hremoves i hi
    · cases hb
      exact hreported i k n e rest hi hh

/-- **A step that breaks it** ends a checker. -/
theorem not_survives_of_unreadable {x x' : Served K Scope Time} {b : ServedAction K Scope Time}
    (hC : ¬ Readable x b) (hs : x.step b = some x') : ¬ Survives x b x' := by
  intro hsurvives
  cases b with
  | handle r => exact hC trivial
  | server a =>
    simp only [Served.step, Option.ite_none_right_eq_some, Option.map_eq_some_iff] at hs
    obtain ⟨hn, s', hs, rfl⟩ := hs
    simp only [Readable, not_forall, Bool.not_eq_false] at hC
    obtain ⟨p, hp, hread⟩ := hC
    cases hi : a.checker with
    | none =>
      have hnil : x.server.ahead a = [] := by
        cases a with
        | wake | handled => cases hi
        | _ => rfl
      rw [hnil] at hp
      cases hp
    | some i =>
      obtain ⟨c, hc, hstep⟩ := step_checker hs hn hi
      obtain ⟨e, he⟩ : ∃ e, s'.checkers[i]? = some (.ended e) := by
        obtain ⟨-, rfl⟩ | ⟨k, n, e, rest, -, rfl⟩ := hstep
        · obtain ⟨e, he⟩ := State.sweep_unreadable ⟨p, hp, hread⟩
          exact ⟨e, by rw [State.checkers_pass_self hc, he]⟩
        · obtain ⟨e, he⟩ := State.sweep_unreadable (s := x.server.remove k) ⟨p, hp, hread⟩
          exact ⟨e, by rw [State.checkers_pass_self (s := x.server.remove k) hc, he]⟩
      have hended := hsurvives.raises i e (by rw [server_gather]; exact he)
      cases hc.symm.trans hended
      obtain ⟨h, -⟩ | ⟨_, _, _, _, h, -⟩ := hstep <;> cases h

/-- **The checker survives every application**, and `arun` with it, in exactly those runs where every task it looks at can
be read: it was not cancelled, and `bool` of its exception does not raise. -/
theorem survives_iff_readable {maxApplications : Int} {bs : List (ServedAction K Scope Time)}
    {x : Served K Scope Time} (hrun : served.run (Served.init maxApplications) bs = some x) :
    served.Along Survives (Served.init maxApplications) bs ↔ served.Meets Readable (Served.init maxApplications) bs := by
  refine served.along_iff_meets (K := Served.Waits) ?_ ?_ ?_ hrun
  · intro x b x' hx hC hs
    exact survives_of_readable hx hC hs
  · intro x b x' _ hC hs
    exact not_survives_of_unreadable hC hs
  · intro _ e he
    cases he

/-- An application is cancelled, from within or by anybody, and the checker looks at its task. -/
def cancelledApplication : List (ServedAction Nat Unit Nat) :=
  [.server (.getOrCreate 7 () 0 none), .server (.finish 0 .cancelled), .server (.wake 0)]

/-- **A cancelled application** ends the checker, and `arun` with it. -/
theorem not_survives : ∃ x : Served Nat Unit Nat, served.run (Served.init 10) cancelledApplication = some x ∧
    x.server.checkers = [.ended .cancelledError] ∧ x.arun = some (.error .cancelledError) ∧
    ¬ served.Along Survives (Served.init 10) cancelledApplication := by
  refine ⟨_, rfl, ?_, ?_, fun h => ?_⟩
  · rfl
  · rfl
  · have hended := (((h _ rfl).2 _ rfl).2 _ rfl).1.raises 0 .cancelledError rfl
    cases hended

/-- Two applications, one of which fails with an exception; the other ends while the failure is reported. -/
theorem survives_of_reported : served.Along Survives (Served.init 10 : Served Nat Unit Nat)
    [.server (.getOrCreate 7 () 0 none), .server (.getOrCreate 8 () 1 none),
      .server (.finish 0 (.raised (.valueError "boom") (.ok true))), .server (.wake 0), .server (.finish 1 .returned),
      .server (.handled 0 (.ok ()))] :=
  (survives_iff_readable rfl).2 (by decide)

end Asgiref.Server
