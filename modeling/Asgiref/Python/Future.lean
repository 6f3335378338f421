import Asgiref.Python.Basic

/-!
# `concurrent.futures.Future`

The state of a future and the methods the modelled code calls on it: `cancel`,
`set_running_or_notify_cancel`, and `set_result` / `set_exception` (one definition, `settle`).
-/

namespace Asgiref.Python

/-- The `_state` of a future, with the result or exception of a finished one. -/
inductive Future (R : Type) where
  | pending
  | running
  | cancelled
  | cancelledAndNotified
  | finished (r : Result R)
  deriving DecidableEq

namespace Future

variable {R : Type}

/-- `done()`: cancelled or finished. -/
def done : Future R → Bool
  | .pending | .running => false
  | .cancelled | .cancelledAndNotified | .finished _ => true

/-- `cancel()`: a running or finished future is left alone. -/
def cancel : Future R → Future R
  | .pending => .cancelled
  | f => f

/-- `set_running_or_notify_cancel()`: the new state and the Boolean returned. -/
def setRunningOrNotifyCancel : Future R → Result (Future R × Bool)
  | .cancelled => .ok (.cancelledAndNotified, false)
  | .pending => .ok (.running, true)
  | _ => .error (.runtimeError "Future in unexpected state")

/-- `set_result(r)` and `set_exception(e)`. -/
def settle (r : Result R) : Future R → Result (Future R)
  | .pending | .running => .ok (.finished r)
  | _ => .error .invalidStateError

@[simp] theorem settle_pending (r : Result R) : settle r .pending = .ok (.finished r) := rfl
@[simp] theorem settle_running (r : Result R) : settle r .running = .ok (.finished r) := rfl
@[simp] theorem done_finished (r : Result R) : (finished r).done = true := rfl
@[simp] theorem done_pending : (pending : Future R).done = false := rfl

/-- A cancellation starts no future. -/
theorem cancel_eq_running {f : Future R} : f.cancel = .running ↔ f = .running := by
  cases f <;> simp [cancel]

theorem cancel_ne_pending (f : Future R) : f.cancel ≠ .pending := by
  cases f <;> simp [cancel]

/-- A cancellation finishes no future. -/
theorem cancel_eq_finished {f : Future R} {r : Result R} : f.cancel = .finished r ↔ f = .finished r := by
  cases f <;> simp [cancel]

/-- What is neither pending nor running is done. -/
theorem done_of_ne {f : Future R} (hp : f ≠ .pending) (hr : f ≠ .running) : f.done = true := by
  cases f with
  | pending => exact absurd rfl hp
  | running => exact absurd rfl hr
  | cancelled | cancelledAndNotified | finished => rfl

end Future

end Asgiref.Python
