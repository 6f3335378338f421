import Asgiref.Lib.Fifo
import Asgiref.Timeouts.Model

/-!
# `ApplicationCommunicator`

The application, its two queues, and any number of calls of the methods, made by tasks that run concurrently.

* `App` — the task of the application, behind the property `future`;
* `Call`, `Phase` — a call of a method, and where it is suspended;
* `begin` — a method up to its first suspension, `resume` — from a suspension to the next;
* `machine` — all orders of calls, timeouts, cancellations and steps of the application, which does anything.

What is between two suspensions is one step.  Calling the application gives a coroutine.  A `timeout` block calls
`_cancel_task` at most once, while its body is suspended, and is left as `Timeouts.leave` says; a `put` of an
unbounded queue is never suspended, and a `get` that is cancelled takes nothing.
-/

namespace Asgiref.Testing

open Asgiref.Python Asgiref.Lib Asgiref.Timeouts

/-- Where the task of the application is. -/
inductive AppPc where
  /-- it has not taken its first step -/
  | created
  | started
  | done (r : Result Unit)
  deriving DecidableEq

/-- `_future` -/
structure App where
  pc : AppPc := .created
  /-- a `CancelledError` is on its way to the coroutine -/
  cancelRequested : Bool := false

/-- What a method returns. -/
inductive Answer (M : Type) where
  | none
  | message (m : M)
  /-- the Boolean of `receive_nothing` -/
  | nothing (b : Bool)

/-- Where a call is suspended. -/
inductive Phase (M : Type) where
  /-- `receive_output`, in `await self.output_queue.get()` -/
  | getting
  /-- `receive_output`, in `await self.future` after the timeout -/
  | stopping
  /-- `receive_nothing`, in `await asyncio.sleep(interval)` -/
  | polling
  /-- `wait`, in the first `await self.future` -/
  | waiting
  /-- `wait`, in the `await self.future` of `finally`; `out` is on its way out of the `try` -/
  | cleaning (out : Result Unit)
  | ended (r : Result (Answer M))

/-- A call, with `_cancelled` of its timeout. -/
structure Call (M : Type) where
  phase : Phase M
  expired : Bool := false
  /-- the `await` ends with a `CancelledError`, whatever is awaited -/
  mustCancel : Bool := false

structure State (M : Type) where
  future : Option App := none
  input : List M := []
  output : List M := []
  calls : List (Call M) := []

variable {M : Type}

namespace State

/-- The property `future` -/
def ensure (s : State M) : State M := { s with future := some (s.future.getD {}) }

/-- How the application has ended, if it has. -/
def result (s : State M) : Option (Result Unit) :=
  match s.future with
  | some { pc := .done r, .. } => some r
  | _ => none

/-- `if self.future.done(): self.future.result()` -/
def check (s : State M) : Result Unit := s.result.getD (.ok ())

/-- `future.cancel()` -/
def cancelFuture (s : State M) : State M :=
  match s.future with
  | some { pc := .done _, .. } | none => s
  | some app => { s with future := some { app with cancelRequested := true } }

end State

/-- A call that is over. -/
def Call.over (r : Result (Answer M)) : Call M := { phase := .ended r }

/-! ### `send_input` and `stop` -/

def State.sendInput (s : State M) (m : M) : State M × Call M :=
  match s.ensure.check with
  | .error e => (s.ensure, .over (.error e))
  | .ok () => ({ s.ensure with input := s.input ++ [m] }, .over (.ok .none))

/-- `stop(exceptions)`; `__del__` is `stop(False)`. -/
def State.stop (s : State M) (exceptions : Bool) : State M × Call M :=
  match s.result with
  | none => (s.cancelFuture, .over (.ok .none))
  | some r => (s, .over (if exceptions then r.map fun _ => .none else .ok .none))

/-! ### `receive_output` -/

/-- `receive_output` up to the `get`, which returns at once where there is something. -/
def State.receiveOutput (s : State M) : State M × Call M :=
  match s.ensure.check with
  | .error e => (s.ensure, .over (.error e))
  | .ok () =>
    match s.output with
    | m :: rest => ({ s.ensure with output := rest }, .over (.ok (.message m)))
    | [] => (s.ensure, { phase := .getting })

/-- What `except asyncio.TimeoutError as e` does. -/
def State.afterTimeout (s : State M) (c : Call M) : State M × Call M :=
  match s.result with
  | some (.error e) => (s, { c with phase := .ended (.error e) })
  | some (.ok ()) => (s, { c with phase := .ended (.error timeoutError) })
  | none => (s.cancelFuture, { c with phase := .stopping, mustCancel := false })

/-- The `get` goes on; another call may have taken what woke it. -/
def State.getNext (s : State M) (c : Call M) : Option (State M × Call M) :=
  if c.mustCancel then
    match (leave c.expired (.error .cancelledError) : Result Unit) with
    | .error e =>
      if e = timeoutError then some (s.afterTimeout c) else some (s, { c with phase := .ended (.error e) })
    | .ok () => none
  else
    match s.output with
    | m :: rest => some ({ s with output := rest }, { c with phase := .ended (.ok (.message m)) })
    | [] => none

/-- What an `await self.future` gives, once it does. -/
def State.awaited (s : State M) (c : Call M) : Option (Result Unit) :=
  s.result.map fun r => if c.mustCancel then .error .cancelledError else r

/-- `except asyncio.CancelledError: pass` -/
def passCancelled (r : Result Unit) : Result Unit :=
  match r with
  | .error .cancelledError => .ok ()
  | _ => r

/-- `receive_output` goes on after the application was cancelled. -/
def State.afterStop (s : State M) (c : Call M) : Option (State M × Call M) :=
  (s.awaited c).map fun r =>
    match passCancelled r with
    | .error e => (s, { c with phase := .ended (.error e) })
    | .ok () => (s, { c with phase := .ended (.error timeoutError) })

/-! ### `receive_nothing` -/

/-- The loop up to its next suspension; `more` tells whether `time.monotonic() - start < timeout`. -/
def State.poll (s : State M) (more : Bool) : Phase M :=
  if more then (if s.output.isEmpty then .polling else .ended (.ok (.nothing false)))
  else .ended (.ok (.nothing s.output.isEmpty))

def State.receiveNothing (s : State M) (more : Bool) : State M × Call M :=
  match s.ensure.check with
  | .error e => (s.ensure, .over (.error e))
  | .ok () => (s.ensure, { phase := s.poll more })

/-! ### `wait` -/

/-- The body of the block has ended with `r`: the way out of the block and `finally`. -/
def State.waitFinally (s : State M) (c : Call M) (r : Result Unit) : State M × Call M :=
  let out := leave c.expired (passCancelled r)
  match s.result with
  | none => (s.cancelFuture, { c with phase := .cleaning out, mustCancel := false })
  | some _ => (s, { c with phase := .ended (out.map fun _ => .none) })

def State.wait (s : State M) : State M × Call M :=
  match s.ensure.result with
  | some r => s.ensure.waitFinally { phase := .waiting } r
  | none => (s.ensure, { phase := .waiting })

/-- The `await` of `finally` ends. -/
def State.afterCleaning (s : State M) (c : Call M) (out : Result Unit) : Option (State M × Call M) :=
  (s.awaited c).map fun r =>
    match passCancelled r with
    | .error e => (s, { c with phase := .ended (.error e) })
    | .ok () => (s, { c with phase := .ended (out.map fun _ => .none) })

/-! ### The machine -/

/-- The methods, and the property `future`. -/
inductive Op (M : Type) where
  | future
  | sendInput (m : M)
  | receiveOutput
  | receiveNothing (more : Bool)
  | wait
  | stop (exceptions : Bool)

/-- A method up to its first suspension. -/
def State.begin (s : State M) : Op M → State M × Call M
  | .future => (s.ensure, .over (.ok .none))
  | .sendInput m => s.sendInput m
  | .receiveOutput => s.receiveOutput
  | .receiveNothing more => s.receiveNothing more
  | .wait => s.wait
  | .stop exceptions => s.stop exceptions

/-- A call goes on to its next suspension. -/
def State.resume (s : State M) (c : Call M) (more : Bool) : Option (State M × Call M) :=
  match c.phase with
  | .getting => s.getNext c
  | .stopping => s.afterStop c
  | .polling =>
    if c.mustCancel then some (s, { c with phase := .ended (.error .cancelledError) })
    else some (s, { c with phase := s.poll more })
  | .waiting => (s.awaited c).map (s.waitFinally c)
  | .cleaning out => s.afterCleaning c out
  | .ended _ => none

/-- The task of a call is cancelled in `await self.future`: the application is, or the `await` if that is done. -/
def State.cancelAwait (s : State M) (c : Call M) : State M × Call M :=
  match s.result with
  | some _ => (s, { c with mustCancel := true })
  | none => (s.cancelFuture, c)

/-- The task of a call is cancelled. -/
def State.cancelCall (s : State M) (c : Call M) : Option (State M × Call M) :=
  match c.phase with
  | .getting | .polling => some (s, { c with mustCancel := true })
  | .stopping | .waiting | .cleaning _ => some (s.cancelAwait c)
  | .ended _ => none

/-- `_cancel_task` of the block that the call is in. -/
def State.expire (s : State M) (c : Call M) : Option (State M × Call M) :=
  match c.phase, c.expired with
  | .getting, false | .waiting, false => (s.cancelCall c).map fun p => (p.1, { p.2 with expired := true })
  | _, _ => none

/-- What the application does; it may have left tasks behind that go on when it is done. -/
inductive AppAction (M : Type) where
  | start
  | receive
  | send (m : M)
  /-- the `CancelledError` arrives, and the coroutine may catch it -/
  | cancelled
  | finish (r : Result Unit)

def State.appStep (s : State M) (a : AppAction M) : Option (State M) :=
  s.future.bind fun app =>
    match a, app.pc with
    | .start, .created =>
      some { s with
        future := some (if app.cancelRequested then { pc := .done (.error .cancelledError) } else { pc := .started }) }
    | .start, _ => none
    | _, .created => none
    | .receive, _ =>
      match s.input with
      | _ :: rest => some { s with input := rest }
      | [] => none
    | .send m, _ => some { s with output := s.output ++ [m] }
    | .cancelled, .started => if app.cancelRequested then some { s with future := some { pc := .started } } else none
    | .finish r, .started => some { s with future := some { pc := .done r } }
    | .cancelled, .done _ | .finish _, .done _ => none

inductive Action (M : Type) where
  | call (op : Op M)
  | resume (i : Nat) (more : Bool)
  | expire (i : Nat)
  | cancel (i : Nat)
  | app (a : AppAction M)

/-- What an action makes of which call, and of the rest. -/
def turn (s : State M) : Action M → Option (State M × Nat × Call M)
  | .call op => some ((s.begin op).1, s.calls.length, (s.begin op).2)
  | .resume i more => s.calls[i]?.bind fun c => (s.resume c more).map fun p => (p.1, i, p.2)
  | .expire i => s.calls[i]?.bind fun c => (s.expire c).map fun p => (p.1, i, p.2)
  | .cancel i => s.calls[i]?.bind fun c => (s.cancelCall c).map fun p => (p.1, i, p.2)
  | .app _ => none

/-- The call with this number, which may be a new one. -/
def State.setCall (s : State M) (i : Nat) (c : Call M) : State M :=
  { s with calls := if i < s.calls.length then s.calls.set i c else s.calls ++ [c] }

def step (s : State M) (a : Action M) : Option (State M) :=
  match a with
  | .app a => s.appStep a
  | _ => (turn s a).map fun p => p.1.setCall p.2.1 p.2.2

def machine : Machine (State M) (Action M) := ⟨step⟩

/-- The call that ends in a step, and how. -/
def returns (s : State M) (a : Action M) : Option (Nat × Result (Answer M)) :=
  match turn s a with
  | some (_, i, { phase := .ended r, .. }) => some (i, r)
  | _ => none

end Asgiref.Testing
