import Asgiref.CurrentThreadExecutor.Model
import Asgiref.Sync.RestoreContext

/-!
# One `AsyncToSync` call on a running parent loop

The path of `AsyncToSync.__call__` on which `main_event_loop.call_soon_threadsafe` has accepted the task:

* `Call` — what does not change during the call: the two threads, the task, its executor, the user's
  variables;
* `State` — the three contexts (the caller's, the task's, the one in `context[0]`), `call_result`, the list
  `task_context`, the executors, and where the two threads are;
* `start` — `__call__` up to `run_until_future(call_result)`;
* `step`, `machine` — `main_wrap` on the loop thread, what anybody may do to the task, and the rest of
  `__call__` on the calling thread.  `run_until_future`, `submit` and the items they run are the machine of
  `CurrentThreadExecutor`, which is a component here.
-/

namespace Asgiref.AsyncToSync

open Asgiref.Python Asgiref.Lib Asgiref.Sync
open CurrentThreadExecutor (ExecutorId)

abbrev TaskId := Nat

/-- What does not change during the call. -/
structure Call (U : Type) where
  /-- The thread that makes the call. -/
  caller : ThreadId
  /-- The thread of `main_event_loop`. -/
  loopThread : ThreadId
  /-- The task that will run `main_wrap`. -/
  task : TaskId
  /-- `current_executor` -/
  executor : ExecutorId
  /-- What the variables of the user bring with them. -/
  vars : UserVars U

/-- Where the task is in `main_wrap`.  `out` is how it leaves the `finally` block. -/
inductive TaskPc (R : Type) where
  /-- `create_task` is in the queue of the loop. -/
  | scheduled
  /-- Created, and not stepped yet. -/
  | created (mustCancel : Bool)
  /-- In `await awaitable`, executing. -/
  | running (mustCancel : Bool)
  /-- In `await awaitable`, suspended; a `CancelledError` may be on its way. -/
  | suspended (cancelled : Bool)
  /-- `await awaitable` has ended with `r`. -/
  | awaited (r : Result R)
  /-- `call_result` is resolved, and its callbacks are being run. -/
  | resolved (out : Result Unit)
  /-- In `finally`, after `task_context.remove`. -/
  | removed (out : Result Unit)
  /-- In `finally`, after the assignment of `context[0]`. -/
  | stored (out : Result Unit)
  /-- The task is done. -/
  | done (out : Result Unit)
  deriving DecidableEq

/-- `task.cancel()` -/
def TaskPc.cancel {R : Type} : TaskPc R → TaskPc R
  | .created _ => .created true
  | .running _ => .running true
  | .suspended _ => .suspended true
  | pc => pc

/-- The task has taken its first step. -/
def TaskPc.stepped {R : Type} : TaskPc R → Bool
  | .scheduled | .created _ => false
  | _ => true

/-- The body of `main_wrap` has ended. -/
def TaskPc.left {R : Type} : TaskPc R → Bool
  | .stored _ | .done _ => true
  | _ => false

@[simp] theorem TaskPc.stepped_cancel {R : Type} (pc : TaskPc R) : pc.cancel.stepped = pc.stepped := by
  cases pc <;> rfl

@[simp] theorem TaskPc.left_cancel {R : Type} (pc : TaskPc R) : pc.cancel.left = pc.left := by
  cases pc <;> rfl

/-- Where the calling thread is in `__call__`. -/
inductive CallerPc (R : Type) where
  /-- In `run_until_future(call_result)`. -/
  | blocked
  /-- About to call `_restore_context(context[0])`. -/
  | left
  /-- About to call `call_result.result()`. -/
  | restored
  /-- `__call__` has returned or raised. -/
  | ended (r : Result R)
  deriving DecidableEq

structure State (U R : Type) where
  callerCtx : Context U
  taskCtx : Context U
  /-- `context[0]` -/
  cell : Context U
  /-- `old_executor` -/
  oldExecutor : Option ExecutorId
  /-- `call_result` -/
  callResult : Future R := .pending
  /-- `task_context` -/
  taskContext : Option (List TaskId)
  taskPc : TaskPc R := .scheduled
  callerPc : CallerPc R := .blocked
  execs : CurrentThreadExecutor.State
  /-- History: the variables the coroutine has bound. -/
  wrote : List Var := []
  /-- History: `context[0]` has been reassigned. -/
  cellStored : Bool := false

/-- What a coroutine can do to its context. -/
inductive Write (U : Type) where
  /-- `var.set(v)` -/
  | set (x : Nat) (v : U)
  /-- `setattr(local, key, v)` -/
  | setattr (n : Nat) (key : Local.Name) (v : U)
  /-- `delattr(local, key)` -/
  | delattr (n : Nat) (key : Local.Name)

/-- The variable that is bound by a write. -/
def Write.var {U : Type} : Write U → Var
  | .set x _ => .user x
  | .setattr n _ _ | .delattr n _ => .data (.user n)

/-- The context after a write on the thread `tid`. -/
def Write.apply {U : Type} (tid : ThreadId) (c : Context U) : Write U → Result (Context U)
  | .set x v => .ok (AList.insert (Var.user x) v c)
  | .setattr n key v => .ok (c.setattr tid (.user n) key v)
  | .delattr n key => c.delattr tid (.user n) key

/-- The steps of the two threads. -/
inductive Action (U R : Type) where
  /-- The loop runs `create_task(awaitable)`. -/
  | createTask
  /-- `task.cancel()` -/
  | cancelTask
  /-- The first step of the task: `main_wrap` up to `await awaitable`. -/
  | firstStep
  /-- The coroutine changes its context. -/
  | write (w : Write U)
  | suspend
  | resume
  /-- `await awaitable` returns or raises `r`. -/
  | finish (r : Result R)
  /-- `call_result.set_result` or `call_result.set_exception`, up to the callbacks. -/
  | resolve
  /-- `task_context.remove(current_task)` -/
  | remove
  /-- `context[0] = contextvars.copy_context()` -/
  | store
  /-- The coroutine of the task has ended, and the task becomes done. -/
  | endTask
  /-- Another call appends its task to the same `task_context`. -/
  | appendOther (t : TaskId)
  /-- Another call removes its task from the same `task_context`. -/
  | removeOther (t : TaskId)
  /-- A step of the executors. -/
  | executor (a : CurrentThreadExecutor.Action)
  /-- `run_until_future` has returned. -/
  | leave
  /-- `_restore_context(context[0])` and `self.executors.current = old_executor` -/
  | restore
  /-- `return call_result.result()` -/
  | ret

/-- What the coroutine of a task that has been stepped does by itself. -/
def Action.ofTask {U R : Type} : Action U R → Bool
  | .write _ | .suspend | .finish _ | .resolve | .remove | .store | .endTask => true
  | _ => false

/-- What the calling thread and the executors do. -/
def Action.ofCaller {U R : Type} : Action U R → Bool
  | .executor _ | .leave | .restore | .ret => true
  | _ => false

section

variable {U R : Type} (k : Call U)

/-- `__call__` up to `run_until_future(call_result)`, with `task_context` as read from the thread-local.  The
handle that `call_soon_threadsafe` makes has a copy of the caller's context, and so has the task. -/
def start (callerCtx : Context U) (taskContext : Option (List TaskId)) (execs : CurrentThreadExecutor.State) :
    Option (State U R) :=
  let oldExecutor :=
    match callerCtx.getattr k.caller .executors "current" with
    | .ok old => old
    | .error _ => none
  let ctx := callerCtx.setattr k.caller .executors "current" (some k.executor)
  (CurrentThreadExecutor.step execs (.create k.executor k.caller oldExecutor)).map fun execs =>
    { callerCtx := ctx, taskCtx := ctx, cell := ctx, oldExecutor := oldExecutor, taskContext := taskContext,
      execs := execs }

/-- The first step of the task.  A task that has been cancelled does not enter the body of `main_wrap`; an
exception that leaves `_restore_context` leaves `main_wrap`, which is not yet in its `try` block. -/
def firstStep (s : State U R) (mustCancel : Bool) : State U R :=
  if mustCancel then { s with taskPc := .done (.error .cancelledError) }
  else
    match restoreContext k.vars k.loopThread s.cell s.taskCtx with
    | (c, some e) => { s with taskCtx := c, taskPc := .done (.error e) }
    | (c, none) =>
      { s with taskCtx := c, taskContext := s.taskContext.map (· ++ [k.task]), taskPc := .running false }

/-- `call_result.set_result(result)` or `call_result.set_exception(e)`. -/
def resolve (s : State U R) (r : Result R) : Option (State U R) :=
  match s.callResult.settle r with
  | .ok f =>
    (CurrentThreadExecutor.step s.execs (.resolve k.executor)).map fun execs =>
      { s with callResult := f, execs := execs, taskPc := .resolved (.ok ()) }
  | .error e => some { s with taskPc := .resolved (.error e) }

/-- `task_context.remove(current_task)`, if there is a `task_context`. -/
def remove (s : State U R) (out : Result Unit) : State U R :=
  match s.taskContext with
  | none => { s with taskPc := .removed out }
  | some l =>
    if k.task ∈ l then { s with taskContext := some (l.erase k.task), taskPc := .removed out }
    else { s with taskPc := .done (.error (.valueError "list.remove(x): x not in list")) }

/-- `_restore_context(context[0])`, and the old executor put back unless that raised. -/
def restore (s : State U R) : State U R :=
  match restoreContext k.vars k.caller s.cell s.callerCtx with
  | (c, none) =>
    { s with callerCtx := c.setattr k.caller .executors "current" s.oldExecutor, callerPc := .restored }
  | (c, some e) => { s with callerCtx := c, callerPc := .ended (.error e) }

/-- The actions of the executors, less those of `call_result`. -/
def executorStep (s : State U R) (a : CurrentThreadExecutor.Action) : Option (State U R) :=
  if a = .resolve k.executor then none
  else (CurrentThreadExecutor.step s.execs a).map fun execs => { s with execs := execs }

def step (s : State U R) : Action U R → Option (State U R)
  | .createTask =>
    match s.taskPc with
    | .scheduled => some { s with taskPc := .created false }
    | _ => none
  | .cancelTask =>
    match s.taskPc with
    | .scheduled => none
    | pc => some { s with taskPc := pc.cancel }
  | .firstStep =>
    match s.taskPc with
    | .created mustCancel => some (firstStep k s mustCancel)
    | _ => none
  | .write w =>
    match s.taskPc with
    | .running _ =>
      match w.apply k.loopThread s.taskCtx with
      | .ok c => some { s with taskCtx := c, wrote := w.var :: s.wrote }
      | .error _ => some s
    | _ => none
  | .suspend =>
    match s.taskPc with
    | .running mustCancel => some { s with taskPc := .suspended mustCancel }
    | _ => none
  | .resume =>
    match s.taskPc with
    | .suspended _ => some { s with taskPc := .running false }
    | _ => none
  | .finish r =>
    match s.taskPc with
    | .running _ => some { s with taskPc := .awaited r }
    | _ => none
  | .resolve =>
    match s.taskPc with
    | .awaited r => resolve k s r
    | _ => none
  | .remove =>
    match s.taskPc, s.execs.execs k.executor with
    | .resolved out, some x => if x.registered then none else some (remove k s out)
    | _, _ => none
  | .store =>
    match s.taskPc with
    | .removed out => some { s with cell := s.taskCtx, taskPc := .stored out, cellStored := true }
    | _ => none
  | .endTask =>
    match s.taskPc with
    | .stored out => some { s with taskPc := .done out }
    | _ => none
  | .appendOther t =>
    if t = k.task then none else some { s with taskContext := s.taskContext.map (· ++ [t]) }
  | .removeOther t =>
    if t = k.task then none else some { s with taskContext := s.taskContext.map (·.erase t) }
  | .executor a => executorStep k s a
  | .leave =>
    match s.callerPc, s.execs.execs k.executor with
    | .blocked, some x => if x.pc = .returned then some { s with callerPc := .left } else none
    | _, _ => none
  | .restore =>
    match s.callerPc with
    | .left => some (restore k s)
    | _ => none
  | .ret =>
    match s.callerPc, s.callResult with
    | .restored, .finished r => some { s with callerPc := .ended r }
    | _, _ => none

/-- The call and everything that happens to it. -/
def machine : Machine (State U R) (Action U R) := ⟨step k⟩

/-! ### What a step can do -/

/-- The steps of the machine, one constructor for each path through the code. -/
inductive StepTo (s : State U R) : Action U R → State U R → Prop where
  | createTask : s.taskPc = .scheduled → StepTo s .createTask { s with taskPc := .created false }
  | cancelTask : s.taskPc ≠ .scheduled → StepTo s .cancelTask { s with taskPc := s.taskPc.cancel }
  | firstStep {mustCancel} : s.taskPc = .created mustCancel → StepTo s .firstStep (firstStep k s mustCancel)
  | write {w m c} : s.taskPc = .running m → w.apply k.loopThread s.taskCtx = .ok c →
      StepTo s (.write w) { s with taskCtx := c, wrote := w.var :: s.wrote }
  | writeRaises {w m e} : s.taskPc = .running m → w.apply k.loopThread s.taskCtx = .error e → StepTo s (.write w) s
  | suspend {m} : s.taskPc = .running m → StepTo s .suspend { s with taskPc := .suspended m }
  | resume {m} : s.taskPc = .suspended m → StepTo s .resume { s with taskPc := .running false }
  | finish {m r} : s.taskPc = .running m → StepTo s (.finish r) { s with taskPc := .awaited r }
  | resolve {r f execs} : s.taskPc = .awaited r → s.callResult.settle r = .ok f →
      CurrentThreadExecutor.step s.execs (.resolve k.executor) = some execs →
      StepTo s .resolve { s with callResult := f, execs := execs, taskPc := .resolved (.ok ()) }
  | resolveRaises {r e} : s.taskPc = .awaited r → s.callResult.settle r = .error e →
      StepTo s .resolve { s with taskPc := .resolved (.error e) }
  | remove {out x} : s.taskPc = .resolved out → s.execs.execs k.executor = some x → x.registered = false →
      StepTo s .remove (remove k s out)
  | store {out} : s.taskPc = .removed out →
      StepTo s .store { s with cell := s.taskCtx, taskPc := .stored out, cellStored := true }
  | endTask {out} : s.taskPc = .stored out → StepTo s .endTask { s with taskPc := .done out }
  | appendOther {t} : t ≠ k.task →
      StepTo s (.appendOther t) { s with taskContext := s.taskContext.map (· ++ [t]) }
  | removeOther {t} : t ≠ k.task →
      StepTo s (.removeOther t) { s with taskContext := s.taskContext.map (·.erase t) }
  | executor {a execs} : a ≠ .resolve k.executor → CurrentThreadExecutor.step s.execs a = some execs →
      StepTo s (.executor a) { s with execs := execs }
  | leave {x} : s.callerPc = .blocked → s.execs.execs k.executor = some x → x.pc = .returned →
      StepTo s .leave { s with callerPc := .left }
  | restore : s.callerPc = .left → StepTo s .restore (restore k s)
  | ret {r} : s.callerPc = .restored → s.callResult = .finished r → StepTo s .ret { s with callerPc := .ended r }

theorem stepTo_of_step {s s' : State U R} {a : Action U R} (h : step k s a = some s') : StepTo k s a s' := by
  cases a with
  | createTask =>
    simp only [step] at h
    split at h <;> cases h
    exact .createTask ‹_›
  | cancelTask =>
    simp only [step] at h
    split at h
    · cases h
    · cases h; exact .cancelTask ‹_›
  | firstStep =>
    simp only [step] at h
    split at h <;> cases h
    exact .firstStep ‹_›
  | write w =>
    simp only [step] at h
    split at h
    · split at h <;> cases h
      · exact .write ‹_› ‹_›
      · exact .writeRaises ‹_› ‹_›
    · cases h
  | suspend =>
    simp only [step] at h
    split at h <;> cases h
    exact .suspend ‹_›
  | resume =>
    simp only [step] at h
    split at h <;> cases h
    exact .resume ‹_›
  | finish r =>
    simp only [step] at h
    split at h <;> cases h
    exact .finish ‹_›
  | resolve =>
    simp only [step] at h
    split at h
    · unfold resolve at h
      split at h
      · obtain ⟨execs, hx, rfl⟩ := Option.map_eq_some_iff.1 h
        exact .resolve ‹_› ‹_› hx
      · cases h; exact .resolveRaises ‹_› ‹_›
    · cases h
  | remove =>
    simp only [step] at h
    split at h
    · split at h
      · cases h
      · cases h
        rename_i hreg
        exact .remove ‹_› ‹_› (by simpa using hreg)
    · cases h
  | store =>
    simp only [step] at h
    split at h <;> cases h
    exact .store ‹_›
  | endTask =>
    simp only [step] at h
    split at h <;> cases h
    exact .endTask ‹_›
  | appendOther t =>
    simp only [step] at h
    split at h <;> cases h
    exact .appendOther ‹_›
  | removeOther t =>
    simp only [step] at h
    split at h <;> cases h
    exact .removeOther ‹_›
  | executor a =>
    simp only [step, executorStep] at h
    split at h
    · cases h
    · obtain ⟨execs, hx, rfl⟩ := Option.map_eq_some_iff.1 h
      exact .executor ‹_› hx
  | leave =>
    simp only [step] at h
    split at h
    · split at h <;> cases h
      exact .leave ‹_› ‹_› ‹_›
    · cases h
  | restore =>
    simp only [step] at h
    split at h <;> cases h
    exact .restore ‹_›
  | ret =>
    simp only [step] at h
    split at h <;> cases h
    exact .ret ‹_› ‹_›

end

end Asgiref.AsyncToSync
