import Asgiref.Lib.Dict
import Asgiref.Lib.Machine
import Asgiref.Python.Basic
import Mathlib.Order.MinMax

/-!
# `StatelessServer`

The table of application instances, the methods that change it and the application checker.  Everything
between two `await`s of a coroutine on the loop is one step.

* `getOrCreateApplicationInstance`, `deleteOldestApplicationInstance`, `deleteApplicationInstance`: the
  methods, each with the state it leaves and its result;
* `sweep`: the `for` loop of `application_checker` up to its next suspension or its end;
* `machine`: all orders of calls, ends of application tasks and steps of checkers.

A task is known by its number.  An entry of the table is the one dictionary made together with its task, so
that the entries a checker holds in its snapshot are known by their tasks as well.
-/

namespace Asgiref.Server

open Asgiref.Lib Asgiref.Python

/-- How an application task ends.  With an exception goes what `bool` of it gives. -/
inductive Outcome where
  | returned
  | raised (e : Exn) (truth : Result Bool)
  | cancelled

/-- The task of an application instance. -/
structure AppTask (K : Type) where
  /-- the `scope_id` it was started for -/
  scopeId : K
  /-- `none` while it is not done -/
  outcome : Option Outcome
  /-- `cancel()` was called on it -/
  cancelled : Bool

/-- A task that neither ended nor was cancelled. -/
def AppTask.Running {K : Type} (t : AppTask K) : Prop := t.outcome = none ∧ t.cancelled = false

/-- `details`: what `application_instances` keeps for a `scope_id`. -/
structure Details (Scope Time : Type) where
  inputQueue : Nat
  future : Nat
  scope : Scope
  lastUsed : Time

/-- Where a coroutine `application_checker` is suspended. -/
inductive Checker (K : Type) where
  /-- in `asyncio.sleep` -/
  | sleeping
  /-- in `application_exception(exception, details)` for the entry of `future`, found under `scopeId`; the
  rest of the snapshot is still to be looked at -/
  | handling (scopeId : K) (future : Nat) (e : Exn) (rest : List (K × Nat))
  /-- ended by an exception -/
  | ended (e : Exn)

/-- A server with its tasks and its checkers. -/
structure State (K Scope Time : Type) where
  maxApplications : Int
  instances : Dict K (Details Scope Time)
  tasks : List (AppTask K)
  checkers : List (Checker K)

/-- `StatelessServer(application, max_applications)` -/
def State.init {K Scope Time : Type} (maxApplications : Int) : State K Scope Time :=
  { maxApplications, instances := ∅, tasks := [], checkers := [] }

variable {K Scope Time : Type}

namespace State

/-! ### Futures -/

/-- How the task ended, if it did. -/
def outcome (s : State K Scope Time) (future : Nat) : Option Outcome := s.tasks[future]?.bind (·.outcome)

/-- `future.done()` -/
def done (s : State K Scope Time) (future : Nat) : Bool := (s.outcome future).isSome

/-- `future.cancel()`, which leaves a done task alone. -/
def cancel (s : State K Scope Time) (future : Nat) : State K Scope Time :=
  match s.tasks[future]? with
  | some t => if t.outcome.isSome then s else { s with tasks := s.tasks.set future { t with cancelled := true } }
  | none => s

/-- The task ends. -/
def finish (s : State K Scope Time) (future : Nat) (o : Outcome) : Option (State K Scope Time) :=
  match s.tasks[future]? with
  | some t => if t.outcome.isSome then none else some { s with tasks := s.tasks.set future { t with outcome := some o } }
  | none => none

@[simp] theorem cancel_instances (s : State K Scope Time) (n : Nat) : (s.cancel n).instances = s.instances := by
  unfold cancel; split <;> [split; skip] <;> rfl

@[simp] theorem cancel_checkers (s : State K Scope Time) (n : Nat) : (s.cancel n).checkers = s.checkers := by
  unfold cancel; split <;> [split; skip] <;> rfl

@[simp] theorem cancel_maxApplications (s : State K Scope Time) (n : Nat) :
    (s.cancel n).maxApplications = s.maxApplications := by
  unfold cancel; split <;> [split; skip] <;> rfl

/-- A cancellation marks the one task, if it is not done. -/
theorem tasks_cancel (s : State K Scope Time) (n m : Nat) :
    (s.cancel n).tasks[m]? =
      s.tasks[m]?.map fun t => if m = n ∧ t.outcome = none then { t with cancelled := true } else t := by
  by_cases hm : m = n
  · subst hm
    unfold cancel
    cases ht : s.tasks[m]? with
    | none => simp [ht]
    | some t =>
      have hlt : m < s.tasks.length := (List.getElem?_eq_some_iff.1 ht).1
      cases ho : t.outcome with
      | none => simp [ho, hlt]
      | some o => simp [ho, ht]
  · unfold cancel
    cases ht : s.tasks[n]? with
    | none => simp [hm]
    | some t =>
      cases ho : t.outcome with
      | none => simp [ho, hm, List.getElem?_set_ne (Ne.symm hm)]
      | some o => simp [ho, hm]

/-- A cancellation leaves every task the task of its `scope_id`. -/
theorem exists_task_cancel {s : State K Scope Time} {m : Nat} {t : AppTask K} (h : s.tasks[m]? = some t) (n : Nat) :
    ∃ t', (s.cancel n).tasks[m]? = some t' ∧ t'.scopeId = t.scopeId := by
  rw [tasks_cancel, h]
  by_cases hc : m = n ∧ t.outcome = none
  · exact ⟨{ t with cancelled := true }, by simp [hc], rfl⟩
  · exact ⟨t, by simp [hc], rfl⟩

/-- A task that still runs after a cancellation is another one. -/
theorem of_running_cancel {s : State K Scope Time} {n m : Nat} {t : AppTask K}
    (h : (s.cancel n).tasks[m]? = some t) (hrun : t.Running) : s.tasks[m]? = some t ∧ m ≠ n := by
  rw [tasks_cancel] at h
  obtain ⟨u, hu, hut⟩ := Option.map_eq_some_iff.1 h
  by_cases hc : m = n ∧ u.outcome = none
  · rw [if_pos hc] at hut
    subst hut
    cases hrun.2
  · rw [if_neg hc] at hut
    subst hut
    exact ⟨hu, fun hm => hc ⟨hm, hrun.1⟩⟩

@[simp] theorem outcome_cancel (s : State K Scope Time) (n m : Nat) : (s.cancel n).outcome m = s.outcome m := by
  rw [outcome, outcome, tasks_cancel]
  cases s.tasks[m]? with
  | none => rfl
  | some t => by_cases h : m = n ∧ t.outcome = none <;> simp [h]

@[simp] theorem done_cancel (s : State K Scope Time) (n m : Nat) : (s.cancel n).done m = s.done m := by
  rw [done, done, outcome_cancel]

theorem done_iff {s : State K Scope Time} {n : Nat} :
    s.done n = true ↔ ∃ t, s.tasks[n]? = some t ∧ t.outcome ≠ none := by
  cases h : s.tasks[n]? <;> simp [done, outcome, h, Option.isSome_iff_ne_none]

theorem cancel_of_done {s : State K Scope Time} {n : Nat} (h : s.done n = true) : s.cancel n = s := by
  obtain ⟨t, ht, ho⟩ := done_iff.1 h
  simp [cancel, ht, Option.isSome_iff_ne_none.2 ho]

/-- A task that ends was running, and nothing else changes. -/
theorem finish_eq_some {s s' : State K Scope Time} {n : Nat} {o : Outcome} : s.finish n o = some s' ↔
    ∃ t, s.tasks[n]? = some t ∧ t.outcome = none ∧
      s' = { s with tasks := s.tasks.set n { t with outcome := some o } } := by
  unfold finish
  cases s.tasks[n]? with
  | none => simp
  | some t => cases ho : t.outcome <;> simp [ho, eq_comm]

/-! ### The table -/

variable [DecidableEq K]

/-- `del self.application_instances[scope_id]`, where a missing key does nothing. -/
def remove (s : State K Scope Time) (scopeId : K) : State K Scope Time :=
  { s with instances := s.instances.erase scopeId }

/-- `delete_application_instance` -/
def deleteApplicationInstance (s : State K Scope Time) (scopeId : K) : State K Scope Time × Result Unit :=
  match s.instances.lookup scopeId with
  | none => (s, .error .keyError)
  | some details =>
    let s' := s.remove scopeId
    (if s'.done details.future then s' else s'.cancel details.future, .ok ())

@[simp] theorem lookup_remove (s : State K Scope Time) (k k' : K) :
    (s.remove k).instances.lookup k' = if k' = k then none else s.instances.lookup k' := Dict.lookup_erase ..

@[simp] theorem checkers_remove (s : State K Scope Time) (k : K) : (s.remove k).checkers = s.checkers := rfl
@[simp] theorem outcome_remove (s : State K Scope Time) (k : K) (n : Nat) : (s.remove k).outcome n = s.outcome n := rfl

theorem deleteApplicationInstance_of_lookup {s : State K Scope Time} {k : K} {d : Details Scope Time}
    (h : s.instances.lookup k = some d) :
    s.deleteApplicationInstance k = ((s.remove k).cancel d.future, .ok ()) := by
  unfold deleteApplicationInstance
  rw [h]
  by_cases hd : (s.remove k).done d.future = true
  · simp only [hd, if_true, cancel_of_done hd]
  · simp only [hd, if_false, Bool.false_eq_true]

theorem deleteApplicationInstance_of_none {s : State K Scope Time} {k : K} (h : s.instances.lookup k = none) :
    s.deleteApplicationInstance k = (s, .error .keyError) := by
  unfold deleteApplicationInstance
  rw [h]

variable [LinearOrder Time]

/-- `delete_oldest_application_instance` -/
def deleteOldestApplicationInstance (s : State K Scope Time) : State K Scope Time × Result Unit :=
  match (s.instances.entries.map fun p => p.2.lastUsed).min? with
  | none => (s, .error (.valueError "min() iterable argument is empty"))
  | some oldestTime =>
    match s.instances.entries.find? fun p => p.2.lastUsed = oldestTime with
    | some p => s.deleteApplicationInstance p.1
    | none => (s, .ok ())

/-- The oldest instance is one of the table; only an empty table has none. -/
theorem deleteOldestApplicationInstance_cases (s : State K Scope Time) :
    (s.instances.length = 0 ∧ s.deleteOldestApplicationInstance.1 = s ∧
      ∃ e, s.deleteOldestApplicationInstance.2 = .error e) ∨
    ∃ k d, s.instances.lookup k = some d ∧
      s.deleteOldestApplicationInstance = ((s.remove k).cancel d.future, .ok ()) := by
  unfold deleteOldestApplicationInstance
  cases hmin : (s.instances.entries.map fun p => p.2.lastUsed).min? with
  | none =>
    have hnil : s.instances.entries = [] := by simpa using hmin
    exact .inl ⟨by simp [Dict.length, hnil], rfl, _, rfl⟩
  | some oldestTime =>
    have : Std.MinEqOr Time := ⟨min_choice⟩
    obtain ⟨p, hp, hlast⟩ := List.mem_map.1 (List.min?_mem hmin)
    cases hfind : s.instances.entries.find? fun p => decide (p.2.lastUsed = oldestTime) with
    | none => exact absurd hlast (by simpa using List.find?_eq_none.1 hfind p hp)
    | some q =>
      have hq : s.instances.lookup q.1 = some q.2 := Dict.mem_entries_iff.1 (List.mem_of_find?_eq_some hfind)
      refine .inr ⟨q.1, q.2, hq, ?_⟩
      simp only [hfind, deleteApplicationInstance_of_lookup hq]

/-- The loop of `get_or_create_application_instance` that evicts, for at most `n` rounds. -/
def makeRoom : Nat → State K Scope Time → State K Scope Time × Result Unit
  | 0, s => (s, .ok ())
  | n + 1, s =>
    if (s.instances.length : Int) > s.maxApplications then
      match s.deleteOldestApplicationInstance with
      | (s', .ok ()) => makeRoom n s'
      | (s', .error e) => (s', .error e)
    else (s, .ok ())

/-- **The eviction loop.**  What an eviction keeps, the loop keeps. -/
theorem makeRoom_induction {I : State K Scope Time → Prop}
    (hI : ∀ s k d, I s → s.maxApplications < s.instances.length → s.instances.lookup k = some d →
      I ((s.remove k).cancel d.future))
    (n : Nat) {s : State K Scope Time} (h : I s) : I (s.makeRoom n).1 := by
  induction n generalizing s with
  | zero => exact h
  | succ n ih =>
    rw [makeRoom]
    by_cases hlen : (s.instances.length : Int) > s.maxApplications
    · rw [if_pos hlen]
      obtain ⟨-, hs, e, he⟩ | ⟨k, d, hd, hs⟩ := s.deleteOldestApplicationInstance_cases
      · rw [show s.deleteOldestApplicationInstance = (s, .error e) from Prod.ext hs he]
        exact h
      · rw [hs]
        exact ih (hI s k d h hlen hd)
    · rw [if_neg hlen]
      exact h

/-- `get_or_create_application_instance` at the time `now`.  Calling the application raises `app`, or gives
something a task can be made of. -/
def getOrCreateApplicationInstance (s : State K Scope Time) (scopeId : K) (scope : Scope) (now : Time)
    (app : Option Exn) : State K Scope Time × Result Nat :=
  match s.instances.lookup scopeId with
  | some details =>
    ({ s with instances := s.instances.set scopeId { details with lastUsed := now } }, .ok details.inputQueue)
  | none =>
    match s.makeRoom (s.instances.length + 1) with
    | (s', .error e) => (s', .error e)
    | (s', .ok ()) =>
      match app with
      | some e => (s', .error e)
      | none =>
        let new := s'.tasks.length
        ({ s' with
            tasks := s'.tasks ++ [{ scopeId, outcome := none, cancelled := false }]
            instances := s'.instances.set scopeId { inputQueue := new, future := new, scope, lastUsed := now } },
          .ok new)

end State

/-! ### The checker -/

namespace State

variable [DecidableEq K]

/-- `list(self.application_instances.items())` -/
def snapshot (s : State K Scope Time) : List (K × Nat) := s.instances.entries.map fun p => (p.1, p.2.future)

/-- The `for` loop of `application_checker` over what is left of the snapshot. -/
def sweep : List (K × Nat) → State K Scope Time → State K Scope Time × Checker K
  | [], s => (s, .sleeping)
  | (scopeId, future) :: rest, s =>
    match s.outcome future with
    | none => sweep rest s
    -- `exception()` of a cancelled future raises
    | some .cancelled => (s, .ended .cancelledError)
    | some .returned => sweep rest (s.remove scopeId)
    | some (.raised e truth) =>
      match truth with
      | .ok true => (s, .handling scopeId future e rest)
      | .ok false => sweep rest (s.remove scopeId)
      | .error e' => (s, .ended e')

def setChecker (s : State K Scope Time) (i : Nat) (c : Checker K) : State K Scope Time :=
  { s with checkers := s.checkers.set i c }

/-- The checker `i` goes on with what is left of its snapshot. -/
def pass (s : State K Scope Time) (i : Nat) (rest : List (K × Nat)) : State K Scope Time :=
  (s.sweep rest).1.setChecker i (s.sweep rest).2

end State

/-! ### The machine -/

/-- What can happen next. -/
inductive Action (K Scope Time : Type) where
  | getOrCreate (scopeId : K) (scope : Scope) (now : Time) (app : Option Exn)
  | delete (scopeId : K)
  | deleteOldest
  /-- an application task ends -/
  | finish (future : Nat) (o : Outcome)
  /-- somebody who holds the future of an application cancels it -/
  | cancel (future : Nat)
  | startChecker
  /-- the checker's `sleep` is over -/
  | wake (i : Nat)
  /-- the checker's `application_exception` ends -/
  | handled (i : Nat) (r : Result Unit)
  /-- the checker itself is cancelled while it is suspended -/
  | cancelChecker (i : Nat)

variable [DecidableEq K] [LinearOrder Time]

def step (s : State K Scope Time) : Action K Scope Time → Option (State K Scope Time)
  | .getOrCreate scopeId scope now app => some (s.getOrCreateApplicationInstance scopeId scope now app).1
  | .delete scopeId => some (s.deleteApplicationInstance scopeId).1
  | .deleteOldest => some s.deleteOldestApplicationInstance.1
  | .finish future o => s.finish future o
  | .cancel future => some (s.cancel future)
  | .startChecker => some { s with checkers := s.checkers ++ [.sleeping] }
  | .wake i =>
    match s.checkers[i]? with
    | some .sleeping => some (s.pass i s.snapshot)
    | _ => none
  | .handled i r =>
    match s.checkers[i]?, r with
    | some (.handling scopeId _ _ rest), .ok () => some ((s.remove scopeId).pass i rest)
    | some (.handling ..), .error e => some (s.setChecker i (.ended e))
    | _, _ => none
  | .cancelChecker i =>
    match s.checkers[i]? with
    | some .sleeping | some (.handling ..) => some (s.setChecker i (.ended .cancelledError))
    | _ => none

/-- The server in all orders of calls, ends of tasks and checker steps. -/
def machine : Machine (State K Scope Time) (Action K Scope Time) := ⟨step⟩

end Asgiref.Server
