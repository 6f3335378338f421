import Asgiref.Lib.Machine
import Asgiref.Python.Task
import Mathlib.Logic.Function.Basic

/-!
# `timeout`

The objects of the class, the tasks that use them in `with` blocks, and the event loop that calls `_cancel_task`.

* `Timeout` — an object, with the fields `__init__` gives it;
* `doEnter`, `doExit`, `cancelTask` — the methods; `expired`, `remaining` — the properties;
* `leave` — what an exception is after it has left a block;
* `enter`, `exitBlock` — the two ends of a `with` block, `unwind` — several blocks left by one exception;
* `machine` — any number of tasks, nested blocks, timers and cancellations, in all orders.

Times count the ticks of `loop.time()`.  The methods that a coroutine calls take effect between two of its
suspensions; the loop calls a `_cancel_task` while no task is running.
-/

namespace Asgiref.Timeouts

open Asgiref.Python Asgiref.Lib

abbrev TaskId := Nat
abbrev TimeoutId := Nat

/-- `asyncio.TimeoutError` -/
def timeoutError : Exn := .other 0

/-- An object of the class. -/
structure Timeout where
  timeout : Option Int
  task : Option TaskId := none
  cancelled : Bool := false
  cancelHandler : Option Nat := none
  cancelAt : Option Int := none
  deriving DecidableEq

/-- A handle of the loop: `_cancel_task` of `target` is to be called. -/
structure Handle where
  target : TimeoutId
  /-- the time of a `call_at`; a `call_soon` has none -/
  callAt : Option Int
  /-- neither called nor cancelled -/
  live : Bool := true
  deriving DecidableEq

structure State where
  time : Int := 0
  /-- `asyncio.current_task()` -/
  current : Option TaskId := none
  tasks : TaskId → Option AsyncTask := fun _ => none
  /-- the `with` blocks that the coroutine of a task is in, the innermost first -/
  blocks : TaskId → List TimeoutId := fun _ => []
  timeouts : TimeoutId → Option Timeout := fun _ => none
  handles : List Handle := []

/-- What leaves the block of a timeout, where `r` leaves its body. -/
def leave {R : Type} (expired : Bool) (r : Result R) : Result R :=
  match r with
  | .error .cancelledError => if expired then .error timeoutError else r
  | _ => r

theorem leave_of_ne {R : Type} {expired : Bool} {r : Result R} (h : r ≠ .error .cancelledError) :
    leave expired r = r := by
  unfold leave
  split
  · exact absurd rfl h
  · rfl

namespace State

def setTimeout (s : State) (k : TimeoutId) (x : Timeout) : State :=
  { s with timeouts := Function.update s.timeouts k (some x) }

def setTask (s : State) (t : TaskId) (x : AsyncTask) : State :=
  { s with tasks := Function.update s.tasks t (some x) }

def setBlocks (s : State) (t : TaskId) (l : List TimeoutId) : State :=
  { s with blocks := Function.update s.blocks t l }

/-- A handle for `_cancel_task`, by `call_soon` or `call_at`. -/
def addHandle (s : State) (y : Handle) : State := { s with handles := s.handles ++ [y] }

/-- `handle.cancel()`; also what is left of a handle that has been called. -/
def dropHandle (s : State) (h : Nat) : State :=
  { s with handles := s.handles.modify h fun y => { y with live := false } }

/-- `task.cancel()` -/
def cancel (s : State) (t : TaskId) : State :=
  match s.tasks t with
  | some x => s.setTask t x.cancel
  | none => s

/-! ### The methods -/

/-- `_do_enter` -/
def doEnter (s : State) (k : TimeoutId) (x : Timeout) : State × Result Unit :=
  match x.timeout with
  | none => (s, .ok ())
  | some d =>
    match s.current with
    | none =>
      (s.setTimeout k { x with task := none },
        .error (.runtimeError "Timeout context manager should be used inside a task"))
    | some t =>
      if d ≤ 0 then
        ((s.setTimeout k { x with task := some t }).addHandle { target := k, callAt := none }, .ok ())
      else
        let cancelAt := s.time + d
        let x' := { x with task := some t, cancelAt := some cancelAt, cancelHandler := some s.handles.length }
        ((s.setTimeout k x').addHandle { target := k, callAt := some cancelAt }, .ok ())

/-- `_do_exit`, with what it raises. -/
def doExit (s : State) (k : TimeoutId) (x : Timeout) (exc : Option Exn) : State × Option Exn :=
  if exc = some .cancelledError ∧ x.cancelled = true then
    (s.setTimeout k { x with cancelHandler := none, task := none }, some timeoutError)
  else
    match x.timeout, x.cancelHandler with
    | some _, some h => ((s.dropHandle h).setTimeout k { x with cancelHandler := none, task := none }, none)
    | _, _ => (s.setTimeout k { x with task := none }, none)

/-- `_cancel_task` -/
def cancelTask (s : State) (k : TimeoutId) (x : Timeout) : State :=
  match x.task with
  | some t => (s.cancel t).setTimeout k { x with cancelled := true }
  | none => s

/-- `expired` -/
def expired (s : State) (k : TimeoutId) : Bool := ((s.timeouts k).map (·.cancelled)).getD false

/-- `remaining` -/
def remaining (s : State) (x : Timeout) : Option Int := x.cancelAt.map fun w => max (w - s.time) 0

/-! ### Blocks -/

/-- A `with` statement up to its body; code that no task runs has no blocks here. -/
def enter (s : State) (k : TimeoutId) (x : Timeout) : State × Result Unit :=
  match s.doEnter k x, s.current with
  | (s', .ok ()), some t => (s'.setBlocks t (k :: s'.blocks t), .ok ())
  | p, _ => p

/-- The exception that the body raises, if it does. -/
def raised : Result Unit → Option Exn
  | .ok () => none
  | .error e => some e

/-- The body of the innermost block of `t` ends with `r`: how the `with` statement ends. -/
def exitBlock (s : State) (t : TaskId) (r : Result Unit) : Option (State × Result Unit) :=
  match s.blocks t with
  | [] => none
  | k :: rest =>
    (s.timeouts k).map fun x =>
      let p := s.doExit k x (raised r)
      (p.1.setBlocks t rest, p.2.elim r .error)

/-- What ends the body of the innermost block of `t` goes through `n` blocks. -/
def unwind (t : TaskId) : Nat → State → Result Unit → Option (State × Result Unit)
  | 0, s, r => some (s, r)
  | n + 1, s, r => (s.exitBlock t r).bind fun p => unwind t n p.1 p.2

end State

/-! ### The machine -/

inductive Action where
  | tick (d : Nat)
  | createTask (t : TaskId)
  /-- `timeout(d)` -/
  | construct (k : TimeoutId) (d : Option Int)
  | enter (k : TimeoutId)
  /-- the body of the innermost block of the running task ends -/
  | exit (r : Result Unit)
  /-- the running task is suspended -/
  | await (a : Awaitable)
  /-- what the task awaits is done -/
  | complete (t : TaskId) (r : Result Unit)
  | wakeup (t : TaskId)
  /-- somebody calls `task.cancel()` -/
  | cancel (t : TaskId)
  /-- the loop calls what a handle stands for -/
  | fire (h : Nat)
  /-- the coroutine of the running task ends -/
  | finish

open State

/-- The handle is live, and its time has come. -/
def Handle.Due (y : Handle) (time : Int) : Prop := y.live = true ∧ ∀ w ∈ y.callAt, w ≤ time

instance (y : Handle) (time : Int) : Decidable (y.Due time) := inferInstanceAs (Decidable (_ ∧ _))

def step (s : State) : Action → Option State
  | .tick d => some { s with time := s.time + d }
  | .createTask t => if s.tasks t = none then some (s.setTask t .create) else none
  | .construct k d => if s.timeouts k = none then some (s.setTimeout k { timeout := d }) else none
  | .enter k => (s.timeouts k).map fun x => (s.enter k x).1
  | .exit r => s.current.bind fun t => (s.exitBlock t r).map Prod.fst
  | .await a =>
    s.current.bind fun t => (s.tasks t).map fun x => { s.setTask t (x.suspend a) with current := none }
  | .complete t r => (s.tasks t).bind fun x => (x.complete r).map (s.setTask t)
  | .wakeup t =>
    if s.current = none then
      (s.tasks t).bind fun x => x.arrives.map fun _ => { s.setTask t { pc := .running } with current := some t }
    else none
  | .cancel t => (s.tasks t).map fun _ => s.cancel t
  | .fire h =>
    if s.current = none then
      s.handles[h]?.bind fun y =>
        if y.Due s.time then (s.timeouts y.target).map fun x => (s.dropHandle h).cancelTask y.target x else none
    else none
  | .finish =>
    s.current.bind fun t =>
      if s.blocks t = [] then (s.tasks t).map fun x => { s.setTask t { x with pc := .done } with current := none }
      else none

/-- Tasks with their blocks and the event loop, in all orders. -/
def machine : Machine State Action := ⟨step⟩

/-- No object is entered again: no handle has been made for it yet. -/
def EnteredOnce (s : State) : Action → Prop
  | .enter k => ∀ y ∈ s.handles, y.target ≠ k
  | _ => True

instance (s : State) : DecidablePred (EnteredOnce s) := fun a => by
  cases a <;> unfold EnteredOnce <;> infer_instance

end Asgiref.Timeouts
