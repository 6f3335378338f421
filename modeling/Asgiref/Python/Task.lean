import Asgiref.Python.Basic

/-!
# `asyncio.Task`

What a cancellation does to a task: it goes on to what the task awaits, or waits in `_must_cancel` for the next
step of the task.
-/

namespace Asgiref.Python

/-- What can be awaited so that the task is suspended. -/
inductive Awaitable where
  /-- a bare `yield`, as in `asyncio.sleep(0)` -/
  | yield
  | future
  /-- another task: it goes on for a while after `cancel()`, and ends in any way -/
  | task
  deriving DecidableEq

/-- `_fut_waiter`, with the outcome of what is awaited once that is done. -/
inductive Waiter where
  | future (outcome : Option (Result Unit))
  | task (asked : Bool) (outcome : Option (Result Unit))
  deriving DecidableEq

/-- What a task is suspended in; a bare `yield` is over at once. -/
def Awaitable.waiter : Awaitable → Waiter
  | .yield => .future (some (.ok ()))
  | .future => .future none
  | .task => .task false none

namespace Waiter

def outcome : Waiter → Option (Result Unit)
  | .future o | .task _ o => o

/-- `_fut_waiter.cancel()`: the state after it, and the Boolean returned. -/
def cancel : Waiter → Waiter × Bool
  | .future none => (.future (some (.error .cancelledError)), true)
  | .task _ none => (.task true none, true)
  | w => (w, false)

/-- What is awaited ends with `r`. -/
def complete (r : Result Unit) : Waiter → Option Waiter
  | .future none => some (.future (some r))
  | .task asked none => some (.task asked (some r))
  | _ => none

/-- What is awaited is on its way to a `CancelledError`, or may be. -/
def cancelling : Waiter → Bool
  | .future (some (.error .cancelledError)) => true
  | .task true none => true
  | .task _ (some (.error .cancelledError)) => true
  | _ => false

end Waiter

/-- Where a task is. -/
inductive AsyncTaskPc where
  | suspended (w : Waiter)
  | running
  | done
  deriving DecidableEq

/-- A task, with `_must_cancel`. -/
structure AsyncTask where
  pc : AsyncTaskPc
  mustCancel : Bool := false
  deriving DecidableEq

namespace AsyncTask

/-- `create_task`: the first step is yet to come. -/
def create : AsyncTask := { pc := .suspended Awaitable.yield.waiter }

/-- `cancel()` -/
def cancel (t : AsyncTask) : AsyncTask :=
  match t.pc with
  | .done => t
  | .running => { t with mustCancel := true }
  | .suspended w => if w.cancel.2 then { t with pc := .suspended w.cancel.1 } else { t with mustCancel := true }

/-- The running task awaits `a`, which is cancelled at once where a cancellation is due. -/
def suspend (t : AsyncTask) (a : Awaitable) : AsyncTask :=
  if t.mustCancel then cancel { pc := .suspended a.waiter } else { pc := .suspended a.waiter }

/-- How the `await` of the suspended task ends, when what it awaits is done. -/
def arrives (t : AsyncTask) : Option (Result Unit) :=
  match t.pc with
  | .suspended w => w.outcome.map fun r => if t.mustCancel then .error .cancelledError else r
  | _ => none

/-- What is awaited is done. -/
def complete (t : AsyncTask) (r : Result Unit) : Option AsyncTask :=
  match t.pc with
  | .suspended w => (w.complete r).map fun w' => { t with pc := .suspended w' }
  | _ => none

/-- A `CancelledError` is on its way to the task, or may be. -/
def cancelling (t : AsyncTask) : Bool :=
  t.mustCancel ||
    match t.pc with
    | .suspended w => w.cancelling
    | _ => false

/-- The task is suspended. -/
def Suspended (t : AsyncTask) : Prop := ∃ w, t.pc = .suspended w

/-! ### Small facts -/

theorem suspended_suspend (t : AsyncTask) (a : Awaitable) : (t.suspend a).Suspended := by
  unfold suspend cancel
  split
  · dsimp only
    split <;> exact ⟨_, rfl⟩
  · exact ⟨_, rfl⟩

theorem suspended_cancel {t : AsyncTask} (h : t.Suspended) : t.cancel.Suspended := by
  obtain ⟨w, hw⟩ := h
  unfold cancel
  rw [hw]
  dsimp only
  split
  · exact ⟨_, rfl⟩
  · exact ⟨w, rfl⟩

/-- What a task awaits is done while the task is suspended, and leaves it so. -/
theorem suspended_of_complete {t t' : AsyncTask} {r : Result Unit} (h : t.complete r = some t') :
    t.Suspended ∧ t'.Suspended := by
  unfold complete at h
  split at h
  · rename_i w hw
    obtain ⟨w', -, rfl⟩ := Option.map_eq_some_iff.1 h
    exact ⟨⟨w, hw⟩, ⟨w', rfl⟩⟩
  · cases h

/-- A cancellation neither starts nor ends a task. -/
theorem cancel_pc_eq_running {t : AsyncTask} : t.cancel.pc = .running ↔ t.pc = .running := by
  unfold cancel
  split
  · rename_i h
    simp only [h]
  · rename_i h
    simp only [h]
  · rename_i w h
    split <;> simp only [h, reduceCtorEq]

theorem cancel_pc_eq_done {t : AsyncTask} : t.cancel.pc = .done ↔ t.pc = .done := by
  unfold cancel
  split
  · rename_i h
    simp only [h]
  · rename_i h
    simp only [h]
  · rename_i w h
    split <;> simp only [h, reduceCtorEq]

/-- **A cancellation is never lost.**  It reaches what is awaited, or the next step of the task. -/
theorem cancelling_cancel {t : AsyncTask} (h : t.pc ≠ .done) : t.cancel.cancelling = true := by
  unfold cancel
  split
  · rename_i hd
    exact absurd hd h
  · simp [cancelling]
  · rename_i w hw
    cases w with
    | future o => cases o <;> simp [Waiter.cancel, cancelling, Waiter.cancelling]
    | task asked o => cases o <;> simp [Waiter.cancel, cancelling, Waiter.cancelling]

/-- What is awaited becomes a `CancelledError` by ending with one, or after a cancellation. -/
theorem cancelling_of_complete {t t' : AsyncTask} {r : Result Unit} (h : t.complete r = some t')
    (hc : t'.cancelling = true) : t.cancelling = true ∨ r = .error .cancelledError := by
  unfold complete at h
  split at h
  · rename_i w hw
    obtain ⟨w', hw', rfl⟩ := Option.map_eq_some_iff.1 h
    unfold cancelling at hc ⊢
    rw [hw]
    cases hm : t.mustCancel with
    | true => exact .inl rfl
    | false =>
      simp only [hm, Bool.false_or] at hc ⊢
      unfold Waiter.complete at hw'
      split at hw' <;> cases hw'
      · right
        unfold Waiter.cancelling at hc
        split at hc <;> simp_all
      · rename_i asked
        cases asked with
        | true => exact .inl rfl
        | false =>
          right
          unfold Waiter.cancelling at hc
          split at hc <;> simp_all
  · cases h

/-- A task that is not to be cancelled is suspended without a cancellation. -/
theorem cancelling_suspend {t : AsyncTask} (h : t.mustCancel = false) (a : Awaitable) :
    (t.suspend a).cancelling = false := by
  unfold suspend
  rw [h]
  cases a <;> rfl

/-- A `CancelledError` arrives only where one was on its way. -/
theorem cancelling_of_arrives {t : AsyncTask} (h : t.arrives = some (.error .cancelledError)) : t.cancelling = true := by
  unfold arrives at h
  unfold cancelling
  split at h
  · rename_i w hw
    obtain ⟨r, hr, hc⟩ := Option.map_eq_some_iff.1 h
    cases hm : t.mustCancel with
    | true => rfl
    | false =>
      simp only [hm, Bool.false_eq_true, if_false] at hc
      subst hc
      cases w with
      | future o =>
        cases hr
        rfl
      | task asked o =>
        cases hr
        cases asked <;> rfl
  · cases h

end AsyncTask

end Asgiref.Python
