import Asgiref.AsyncToSync.Model
import Asgiref.Sync.ChooseExecutor

/-!
# A cancelled `SyncToAsync` call

A `SyncToAsync` call on a loop has been cancelled while its function, on a worker thread, is blocked in an
`AsyncToSync` call whose task runs on the same loop.  The machine has everything that happens from the
cancellation on:

* `State` — the nested call (the machine of `AsyncToSync`), the ready queue of the loop, where the coroutine of the
  `SyncToAsync` call is, its context, and `exec_coro`;
* `parentStep` — that coroutine: the handler `except asyncio.CancelledError` of `SyncToAsync.__call__`;
* `finish` — its `finally` block, which copies the context of the function back; a comparison that raises there
  replaces what the `try` statement has ended with;
* `runHandle` — the loop, which runs the handles of its queue one after the other;
* `machine` — the loop thread, the worker, and the order in which they step.
-/

namespace Asgiref.SyncToAsync

open Asgiref.Python Asgiref.Lib Asgiref.Sync
open AsyncToSync (Call)

/-- The handles in the ready queue of the loop. -/
inductive Handle (V : Type) where
  /-- The wake-up of the task that awaits the `SyncToAsync` call. -/
  | wakeParent
  /-- The next step of the nested task. -/
  | stepTask
  /-- Posted by the worker when the function has ended: the result is copied into `exec_coro`. -/
  | setState (r : Result V)
  | other

/-- Where the coroutine of the `SyncToAsync` call is. -/
inductive ParentPc (V : Type) where
  /-- In `await asyncio.shield(exec_coro)`, which has been cancelled. -/
  | cancelled
  /-- In `await task`. -/
  | awaitingTask
  /-- In `ret = await exec_coro`. -/
  | awaitingExec
  /-- The `try` statement has ended with `r`, and `finally` is about to run. -/
  | leaving (r : Result V)
  | ended (r : Result V)

structure State (U R V : Type) where
  /-- The nested `AsyncToSync` call; its `taskContext` is the list `task_context` of the `SyncToAsync` call. -/
  call : AsyncToSync.State U R
  ready : List (Handle V)
  /-- The loop is in a step of the nested task. -/
  inStep : Bool
  parent : ParentPc V := .cancelled
  /-- The context in which the coroutine of the `SyncToAsync` call runs; that of the function is the caller's context of
  the nested call. -/
  ctx : Context U
  /-- `self.context` is the user's, and not `None`. -/
  ownContext : Bool := false
  /-- `exec_coro` -/
  execCoro : Future V := .pending
  /-- History: how the function has ended. -/
  posted : Option (Result V) := none
  /-- History: the handler has cancelled the nested task. -/
  cancelSent : Bool := false

inductive Action (U R V : Type) where
  /-- The loop takes the next handle. -/
  | run
  /-- What the nested task waits for is done. -/
  | wakeTask
  /-- Some other handle is put into the queue. -/
  | callSoon
  /-- The nested task goes on in its step. -/
  | task (a : AsyncToSync.Action U R)
  /-- The coroutine of the `SyncToAsync` call runs its `finally` block. -/
  | finish
  /-- The worker goes on in `AsyncToSync.__call__`, or an executor steps. -/
  | worker (a : AsyncToSync.Action U R)
  /-- The function goes on after the nested call, and changes its context. -/
  | write (w : AsyncToSync.Write U)
  /-- The function has ended with `r`, and the worker posts the result to the loop. -/
  | post (r : Result V)

section

variable {U R V : Type} (k : Call U)

/-- The handler from `if exec_coro.done()` on. -/
def afterTask (s : State U R V) (cancelParent : Bool) : State U R V :=
  if s.execCoro.done then { s with parent := .leaving (.error .cancelledError) }
  else if cancelParent then
    -- awaiting a future that has just been cancelled raises at once
    { s with execCoro := s.execCoro.cancel, parent := .leaving (.error .cancelledError) }
  else { s with parent := .awaitingExec }

/-- The coroutine of the `SyncToAsync` call, woken. -/
def parentStep (s : State U R V) : Option (State U R V) :=
  match s.parent with
  | .cancelled =>
    match s.call.taskContext with
    | some (t :: _) =>
      if t = k.task then
        (AsyncToSync.step k s.call .cancelTask).map fun call =>
          { s with call := call, parent := .awaitingTask, cancelSent := true }
      else none
    | _ => some (afterTask s true)
  | .awaitingTask =>
    match s.call.taskPc with
    | .done (.ok _) => some (afterTask s false)
    | .done (.error .cancelledError) => some (afterTask s true)
    | .done (.error e) => some { s with parent := .leaving (.error e) }
    | _ => none
  | .awaitingExec =>
    match s.execCoro with
    | .finished r => some { s with parent := .leaving r }
    | .cancelled | .cancelledAndNotified => some { s with parent := .leaving (.error .cancelledError) }
    | _ => none
  | .leaving _ | .ended _ => none

/-- `finally: if self.context is None: _restore_context(context)`, then `self.deadlock_context.set(False)`, where the
`try` statement has ended with `r`. -/
def finish (s : State U R V) (r : Result V) : State U R V :=
  match if s.ownContext then (s.ctx, none) else restoreContext k.vars k.loopThread s.call.callerCtx s.ctx with
  | (c, none) => { s with ctx := c.setDeadlock false, parent := .ended r }
  | (c, some e) => { s with ctx := c, parent := .ended (.error e) }

/-- The wake-up of the parent, where it awaits what has just become done. -/
def wakeIf (b : Bool) : List (Handle V) := if b then [.wakeParent] else []

def ParentPc.isAwaitingTask : ParentPc V → Bool
  | .awaitingTask => true
  | _ => false

def ParentPc.isAwaitingExec : ParentPc V → Bool
  | .awaitingExec => true
  | _ => false

def ParentPc.isLeaving : ParentPc V → Bool
  | .leaving _ => true
  | _ => false

/-- `_set_state(exec_coro, future)`: nothing, if `exec_coro` has been cancelled. -/
def setState (s : State U R V) (r : Result V) : State U R V :=
  match s.execCoro with
  | .pending => { s with execCoro := .finished r, ready := s.ready ++ wakeIf s.parent.isAwaitingExec }
  | _ => s

/-- The loop runs a handle it has taken out of the queue.  A step of a task that does not wait for one is none. -/
def runHandle (s : State U R V) : Handle V → Option (State U R V)
  | .wakeParent => parentStep k s
  | .stepTask =>
    match s.call.taskPc with
    | .suspended _ => (AsyncToSync.step k s.call .resume).map fun call => { s with call := call, inStep := true }
    | _ => some s
  | .setState r => some (setState s r)
  | .other => some s

/-- The step of the task ends where the coroutine is suspended or has ended. -/
def endStep (s : State U R V) (call : AsyncToSync.State U R) : State U R V :=
  match call.taskPc with
  | .suspended _ => { s with call := call, inStep := false }
  | .done _ => { s with call := call, inStep := false, ready := s.ready ++ wakeIf s.parent.isAwaitingTask }
  | _ => { s with call := call }

def Handle.isStepTask : Handle V → Bool
  | .stepTask => true
  | _ => false

/-- The function can end once the nested call has. -/
def callEnded (s : State U R V) : Bool :=
  match s.call.callerPc with
  | .ended _ => true
  | _ => false

def step (s : State U R V) : Action U R V → Option (State U R V)
  | .run =>
    match s.inStep || s.parent.isLeaving, s.ready with
    | false, h :: rest => runHandle k { s with ready := rest } h
    | _, _ => none
  | .finish =>
    match s.parent with
    | .leaving r => some (finish k s r)
    | _ => none
  | .wakeTask =>
    match s.call.taskPc with
    | .suspended _ => if s.ready.any Handle.isStepTask then none else some { s with ready := s.ready ++ [.stepTask] }
    | _ => none
  | .callSoon => some { s with ready := s.ready ++ [.other] }
  | .task a =>
    if s.inStep ∧ a.ofTask then (AsyncToSync.step k s.call a).map (endStep s) else none
  | .worker a =>
    if a.ofCaller then (AsyncToSync.step k s.call a).map fun call => { s with call := call } else none
  | .write w =>
    if s.posted.isNone ∧ callEnded s then
      match w.apply k.caller s.call.callerCtx with
      | .ok c => some { s with call := { s.call with callerCtx := c } }
      | .error _ => some s
    else none
  | .post r =>
    if s.posted.isNone ∧ callEnded s then
      some { s with posted := some r, ready := s.ready ++ [.setState r] }
    else none

/-- The loop, the worker and the nested call. -/
def machine : Machine (State U R V) (Action U R V) := ⟨step k⟩

/-- The state in which the call is cancelled while its function is blocked: the nested task, the only one in
`task_context`, has started and goes on, and the wake-up of the parent has just been put into the queue. -/
structure Cancelled (s : State U R V) : Prop where
  blocked : s.call.callerPc = .blocked
  unresolved : s.call.callResult = .pending
  taskContext : s.call.taskContext = some [k.task]
  task : s.inStep = true ∧ s.call.taskPc = .running false ∨ s.inStep = false ∧ s.call.taskPc = .suspended false
  parent : s.parent = .cancelled
  execCoro : s.execCoro = .pending
  posted : s.posted = none
  cancelSent : s.cancelSent = false
  ready : ∃ l, s.ready = l ++ [.wakeParent] ∧ ∀ h ∈ l, h = .stepTask ∨ h = .other

end

end Asgiref.SyncToAsync
