import Asgiref.Lib.Machine
import Asgiref.Python.Basic
import Mathlib.Logic.Function.Basic
import Mathlib.Data.List.Basic

/-!
# `SyncToAsync.thread_handler` and the thread-locals it sets

How an `AsyncToSync` call finds the `SyncToAsync` call it belongs to: `thread_handler` writes the loop and the list
`task_context` into thread-locals before it runs the function, and `AsyncToSync.__call__` reads them.

* `State` — any number of threads (each with its stack of frames and its thread-locals), loops, `SyncToAsync` calls
  and `AsyncToSync` calls;
* `step` — a thread runs a function, ends it, calls `AsyncToSync` or comes back from it, and a loop steps the tasks
  of those calls: into `task_context`, through the resolution of `call_result`, out of `task_context`;
* `cancel` — what the handler of a cancelled `SyncToAsync` call does to the first task of its list.

A work item may be run by any thread that is idle, or blocked in an `AsyncToSync` call: which executor it was
submitted to is not part of the model, so that the results hold for every choice.
-/

namespace Asgiref.SyncToAsync

open Asgiref.Python Asgiref.Lib

namespace ThreadHandler

abbrev LoopId := Nat
/-- A `SyncToAsync` call, and the list `task_context` it makes. -/
abbrev CallId := Nat
/-- An `AsyncToSync` call, and the task that runs its `main_wrap`. -/
abbrev TaskId := Nat

/-- `SyncToAsync.threadlocal` on one thread. -/
structure ThreadLocal where
  mainEventLoop : LoopId
  mainEventLoopPid : Nat
  taskContext : CallId
  deriving DecidableEq

/-- The frames on the stack of a thread. -/
inductive Frame where
  /-- `thread_handler` runs the function of `c`, as the `n`-th item of the thread. -/
  | handler (c : CallId) (n : Nat)
  /-- Blocked in `run_until_future` of the `AsyncToSync` call `a`. -/
  | call (a : TaskId)
  deriving DecidableEq

structure Thread where
  /-- The frames, the innermost first. -/
  stack : List Frame := []
  threadlocal : Option ThreadLocal := none
  /-- History: how many items the thread has started. -/
  started : Nat := 0

structure SyncCall where
  /-- The loop on which the call was made. -/
  loop : LoopId
  /-- `task_context` -/
  taskContext : List TaskId := []
  /-- History: the thread that runs the function, and as which of its items. -/
  startedAt : Option (ThreadId × Nat) := none

/-- Where the task of an `AsyncToSync` call is in `main_wrap`. -/
inductive Phase where
  | scheduled
  /-- In `task_context`, and in `await awaitable`. -/
  | registered
  /-- `call_result` is resolved. -/
  | resolved
  /-- Out of `task_context`. -/
  | removed
  deriving DecidableEq

structure AsyncCall where
  /-- `main_event_loop` -/
  mainEventLoop : Option LoopId
  /-- `task_context`, as read from the thread-local. -/
  taskContext : Option CallId
  /-- The parent loop that has accepted the task; `none` where a new loop was made for it. -/
  ranOn : Option LoopId
  phase : Phase := .scheduled
  /-- `task.cancel()` has been called. -/
  cancelRequested : Bool := false

structure State where
  /-- `os.getpid()` -/
  pid : Nat
  isOpen : LoopId → Bool
  /-- The task which the loop is stepping out of `main_wrap`, between two lines of it. -/
  busy : LoopId → Option TaskId
  threads : ThreadId → Thread
  syncCalls : CallId → Option SyncCall
  asyncCalls : TaskId → Option AsyncCall

namespace State

variable (s : State)

/-- Nothing has happened yet. -/
def init (pid : Nat) : State :=
  { pid := pid, isOpen := fun _ => false, busy := fun _ => none, threads := fun _ => {}, syncCalls := fun _ => none,
    asyncCalls := fun _ => none }

def setThread (t : ThreadId) (x : Thread) : State := { s with threads := Function.update s.threads t x }

def setSync (c : CallId) (x : SyncCall) : State := { s with syncCalls := Function.update s.syncCalls c (some x) }

def setAsync (a : TaskId) (r : AsyncCall) : State := { s with asyncCalls := Function.update s.asyncCalls a (some r) }

/-- The task `b` is, or is no longer, between two lines on the loop that runs it. -/
def setBusy (l : Option LoopId) (b : Option TaskId) : State :=
  match l with
  | none => s
  | some l => { s with busy := Function.update s.busy l b }

/-- The loop can take another step. -/
def free (l : Option LoopId) : Bool :=
  match l with
  | none => true
  | some l => (s.busy l).isNone

/-- Change the list of a `SyncToAsync` call, if the task has one. -/
def onList (c : Option CallId) (f : List TaskId → List TaskId) : State :=
  match c with
  | none => s
  | some c =>
    match s.syncCalls c with
    | none => s
    | some x => s.setSync c { x with taskContext := f x.taskContext }

@[simp] theorem threads_setThread (t u : ThreadId) (x : Thread) :
    (s.setThread t x).threads u = if u = t then x else s.threads u := by
  simp only [setThread, Function.update_apply]

@[simp] theorem syncCalls_setSync (c d : CallId) (x : SyncCall) :
    (s.setSync c x).syncCalls d = if d = c then some x else s.syncCalls d := by
  simp only [setSync, Function.update_apply]

@[simp] theorem asyncCalls_setAsync (a b : TaskId) (r : AsyncCall) :
    (s.setAsync a r).asyncCalls b = if b = a then some r else s.asyncCalls b := by
  simp only [setAsync, Function.update_apply]

theorem syncCalls_onList (o : Option CallId) (f : List TaskId → List TaskId) (c : CallId) :
    (s.onList o f).syncCalls c =
      (s.syncCalls c).map fun x => if o = some c then { x with taskContext := f x.taskContext } else x := by
  unfold onList
  split
  · cases s.syncCalls c <;> rfl
  · rename_i d
    split
    · rename_i hd
      by_cases h : d = c
      · rw [← h, hd]; rfl
      · cases hc : s.syncCalls c <;> simp [h]
    · rename_i x hx
      rw [syncCalls_setSync]
      by_cases h : c = d
      · rw [if_pos h, h, hx]; simp
      · rw [if_neg h]
        cases hc : s.syncCalls c <;> simp [Ne.symm h]

theorem busy_setBusy (o : Option LoopId) (b : Option TaskId) (l : LoopId) :
    (s.setBusy o b).busy l = if o = some l then b else s.busy l := by
  unfold setBusy
  split
  · rfl
  · simp only [Function.update_apply, Option.some.injEq, eq_comm]

theorem free_eq_true {o : Option LoopId} : s.free o = true ↔ ∀ l, o = some l → s.busy l = none := by
  cases o <;> simp [free]

@[simp] theorem threads_onList (o : Option CallId) (f : List TaskId → List TaskId) : (s.onList o f).threads = s.threads := by
  unfold onList
  split
  · rfl
  · split <;> rfl

@[simp] theorem busy_onList (o : Option CallId) (f : List TaskId → List TaskId) : (s.onList o f).busy = s.busy := by
  unfold onList
  split
  · rfl
  · split <;> rfl

@[simp] theorem asyncCalls_onList (o : Option CallId) (f : List TaskId → List TaskId) :
    (s.onList o f).asyncCalls = s.asyncCalls := by
  unfold onList
  split
  · rfl
  · split <;> rfl

@[simp] theorem threads_setBusy (o : Option LoopId) (b : Option TaskId) : (s.setBusy o b).threads = s.threads := by
  cases o <;> rfl

@[simp] theorem syncCalls_setBusy (o : Option LoopId) (b : Option TaskId) : (s.setBusy o b).syncCalls = s.syncCalls := by
  cases o <;> rfl

@[simp] theorem asyncCalls_setBusy (o : Option LoopId) (b : Option TaskId) : (s.setBusy o b).asyncCalls = s.asyncCalls := by
  cases o <;> rfl

@[simp] theorem threads_setAsync (a : TaskId) (r : AsyncCall) : (s.setAsync a r).threads = s.threads := rfl
@[simp] theorem syncCalls_setAsync (a : TaskId) (r : AsyncCall) : (s.setAsync a r).syncCalls = s.syncCalls := rfl
@[simp] theorem busy_setAsync (a : TaskId) (r : AsyncCall) : (s.setAsync a r).busy = s.busy := rfl

end State

inductive Action where
  | openLoop (l : LoopId)
  | closeLoop (l : LoopId)
  /-- Code on the loop `l` calls a `SyncToAsync`. -/
  | submit (c : CallId) (l : LoopId)
  /-- A thread starts `thread_handler` for `c`. -/
  | startHandler (c : CallId) (t : ThreadId)
  /-- The function has returned or raised. -/
  | endHandler (t : ThreadId)
  /-- The code on top of the stack of `t` calls an `AsyncToSync`. -/
  | callAsync (a : TaskId) (t : ThreadId) (forceNewLoop : Bool)
  /-- `task_context.append(current_task)` -/
  | register (a : TaskId)
  /-- `call_result` is resolved. -/
  | resolve (a : TaskId)
  /-- `task_context.remove(current_task)` and the end of `main_wrap`. -/
  | remove (a : TaskId)
  /-- The `AsyncToSync` call returns. -/
  | leave (t : ThreadId)
  /-- `task_context[0].cancel()` in the handler of the cancelled call `c`. -/
  | cancel (c : CallId)

/-- `thread_handler` up to the call of the function. -/
def threadHandler (s : State) (c : CallId) (x : SyncCall) (t : ThreadId) : State :=
  let th := s.threads t
  (s.setThread t
    { stack := .handler c (th.started + 1) :: th.stack,
      threadlocal := some { mainEventLoop := x.loop, mainEventLoopPid := s.pid, taskContext := c },
      started := th.started + 1 }).setSync c { x with startedAt := some (t, th.started + 1) }

theorem threads_threadHandler (s : State) (c : CallId) (x : SyncCall) (t u : ThreadId) :
    (threadHandler s c x t).threads u =
      if u = t then
        { stack := .handler c ((s.threads t).started + 1) :: (s.threads t).stack,
          threadlocal := some { mainEventLoop := x.loop, mainEventLoopPid := s.pid, taskContext := c },
          started := (s.threads t).started + 1 }
      else s.threads u := State.threads_setThread s t u _

theorem syncCalls_threadHandler (s : State) (c d : CallId) (x : SyncCall) (t : ThreadId) :
    (threadHandler s c x t).syncCalls d =
      if d = c then some { x with startedAt := some (t, (s.threads t).started + 1) } else s.syncCalls d :=
  State.syncCalls_setSync _ c d _

@[simp] theorem pid_threadHandler (s : State) (c : CallId) (x : SyncCall) (t : ThreadId) :
    (threadHandler s c x t).pid = s.pid := rfl

/-- What `AsyncToSync.__call__` takes for its parent loop. -/
def mainEventLoop (s : State) (t : ThreadId) (forceNewLoop : Bool) : Option LoopId :=
  if forceNewLoop then none
  else
    match (s.threads t).threadlocal with
    | some tl => if tl.mainEventLoopPid = s.pid then some tl.mainEventLoop else none
    | none => none

/-- A closed loop makes `call_soon_threadsafe` raise `RuntimeError`, and a new loop is made. -/
def acceptedBy (s : State) (l : Option LoopId) : Option LoopId :=
  match l with
  | some l => if s.isOpen l then some l else none
  | none => none

/-- `AsyncToSync.__call__` up to `run_until_future`. -/
def asyncCall (s : State) (a : TaskId) (t : ThreadId) (forceNewLoop : Bool) : State :=
  let l := mainEventLoop s t forceNewLoop
  (s.setThread t { s.threads t with stack := .call a :: (s.threads t).stack }).setAsync a
    { mainEventLoop := l, taskContext := (s.threads t).threadlocal.map ThreadLocal.taskContext, ranOn := acceptedBy s l }

/-- The call can return: on a parent loop once `call_result` is resolved, else once the new loop has ended. -/
def AsyncCall.canLeave (r : AsyncCall) : Bool :=
  match r.phase with
  | .removed => true
  | .resolved => r.ranOn.isSome
  | _ => false

/-- The thread can take a work item: it is idle, or in `run_until_future`. -/
def takesItems : List Frame → Bool
  | .handler _ _ :: _ => false
  | _ => true

def step (s : State) : Action → Option State
  | .openLoop l => some { s with isOpen := Function.update s.isOpen l true }
  | .closeLoop l => some { s with isOpen := Function.update s.isOpen l false }
  | .submit c l => if (s.syncCalls c).isNone ∧ s.isOpen l then some (s.setSync c { loop := l }) else none
  | .startHandler c t => do
    let x ← s.syncCalls c
    if x.startedAt.isNone ∧ takesItems (s.threads t).stack then some (threadHandler s c x t) else none
  | .endHandler t =>
    match (s.threads t).stack with
    | .handler _ _ :: rest => some (s.setThread t { s.threads t with stack := rest })
    | _ => none
  | .callAsync a t forceNewLoop =>
    match (s.threads t).stack with
    | .call _ :: _ => none
    | _ => if (s.asyncCalls a).isNone then some (asyncCall s a t forceNewLoop) else none
  | .register a => do
    let r ← s.asyncCalls a
    if r.phase = .scheduled ∧ s.free r.ranOn then
      some ((s.onList r.taskContext (· ++ [a])).setAsync a { r with phase := .registered })
    else none
  | .resolve a => do
    let r ← s.asyncCalls a
    if r.phase = .registered ∧ s.free r.ranOn then
      some ((s.setBusy r.ranOn (some a)).setAsync a { r with phase := .resolved })
    else none
  | .remove a => do
    let r ← s.asyncCalls a
    if r.phase = .resolved then
      some (((s.onList r.taskContext (·.erase a)).setBusy r.ranOn none).setAsync a { r with phase := .removed })
    else none
  | .leave t =>
    match (s.threads t).stack with
    | .call a :: rest => do
      let r ← s.asyncCalls a
      if r.canLeave then some (s.setThread t { s.threads t with stack := rest }) else none
    | _ => none
  | .cancel c => do
    let x ← s.syncCalls c
    if s.free (some x.loop) then
      match x.taskContext with
      | [] => some s
      | a :: _ => (s.asyncCalls a).map fun r => s.setAsync a { r with cancelRequested := true }
    else none

/-- Threads, loops and calls. -/
def machine : Machine State Action := ⟨step⟩

/-! ### What a step can do -/

/-- The steps of the machine, one constructor for each path through the code. -/
inductive StepTo (s : State) : Action → State → Prop where
  | openLoop {l} : StepTo s (.openLoop l) { s with isOpen := Function.update s.isOpen l true }
  | closeLoop {l} : StepTo s (.closeLoop l) { s with isOpen := Function.update s.isOpen l false }
  | submit {c l} : s.syncCalls c = none → StepTo s (.submit c l) (s.setSync c { loop := l })
  | startHandler {c t x} : s.syncCalls c = some x → x.startedAt = none → takesItems (s.threads t).stack = true →
      StepTo s (.startHandler c t) (threadHandler s c x t)
  | endHandler {t c n rest} : (s.threads t).stack = .handler c n :: rest →
      StepTo s (.endHandler t) (s.setThread t { s.threads t with stack := rest })
  | callAsync {a t f} : (∀ b rest, (s.threads t).stack ≠ .call b :: rest) → s.asyncCalls a = none →
      StepTo s (.callAsync a t f) (asyncCall s a t f)
  | register {a r} : s.asyncCalls a = some r → r.phase = .scheduled → s.free r.ranOn = true →
      StepTo s (.register a) ((s.onList r.taskContext (· ++ [a])).setAsync a { r with phase := .registered })
  | resolve {a r} : s.asyncCalls a = some r → r.phase = .registered → s.free r.ranOn = true →
      StepTo s (.resolve a) ((s.setBusy r.ranOn (some a)).setAsync a { r with phase := .resolved })
  | remove {a r} : s.asyncCalls a = some r → r.phase = .resolved →
      StepTo s (.remove a)
        (((s.onList r.taskContext (·.erase a)).setBusy r.ranOn none).setAsync a { r with phase := .removed })
  | leave {t a rest r} : (s.threads t).stack = .call a :: rest → s.asyncCalls a = some r → r.canLeave = true →
      StepTo s (.leave t) (s.setThread t { s.threads t with stack := rest })
  | cancelNone {c x} : s.syncCalls c = some x → x.taskContext = [] → StepTo s (.cancel c) s
  | cancel {c x a l r} : s.syncCalls c = some x → s.free (some x.loop) = true → x.taskContext = a :: l →
      s.asyncCalls a = some r → StepTo s (.cancel c) (s.setAsync a { r with cancelRequested := true })

theorem stepTo_of_step {s s' : State} {a : Action} (h : step s a = some s') : StepTo s a s' := by
  cases a with
  | openLoop l => cases h; exact .openLoop
  | closeLoop l => cases h; exact .closeLoop
  | submit c l =>
    simp only [step, Option.ite_none_right_eq_some, Option.some.injEq] at h
    obtain ⟨⟨hnone, -⟩, rfl⟩ := h
    exact .submit (Option.isNone_iff_eq_none.1 hnone)
  | startHandler c t =>
    simp only [step, Option.bind_eq_bind, Option.bind_eq_some_iff, Option.ite_none_right_eq_some,
      Option.some.injEq] at h
    obtain ⟨x, hx, ⟨hnone, hstack⟩, rfl⟩ := h
    exact .startHandler hx (Option.isNone_iff_eq_none.1 hnone) hstack
  | endHandler t =>
    simp only [step] at h
    split at h <;> cases h
    exact .endHandler ‹_›
  | callAsync a t f =>
    simp only [step] at h
    split at h
    · cases h
    · rename_i hstack
      split at h <;> cases h
      exact .callAsync hstack (Option.isNone_iff_eq_none.1 ‹_›)
  | register a =>
    simp only [step, Option.bind_eq_bind, Option.bind_eq_some_iff, Option.ite_none_right_eq_some,
      Option.some.injEq] at h
    obtain ⟨r, hr, ⟨hphase, hfree⟩, rfl⟩ := h
    exact .register hr hphase hfree
  | resolve a =>
    simp only [step, Option.bind_eq_bind, Option.bind_eq_some_iff, Option.ite_none_right_eq_some,
      Option.some.injEq] at h
    obtain ⟨r, hr, ⟨hphase, hfree⟩, rfl⟩ := h
    exact .resolve hr hphase hfree
  | remove a =>
    simp only [step, Option.bind_eq_bind, Option.bind_eq_some_iff, Option.ite_none_right_eq_some,
      Option.some.injEq] at h
    obtain ⟨r, hr, hphase, rfl⟩ := h
    exact .remove hr hphase
  | leave t =>
    simp only [step] at h
    split at h
    · simp only [Option.bind_eq_bind, Option.bind_eq_some_iff, Option.ite_none_right_eq_some, Option.some.injEq] at h
      obtain ⟨r, hr, hleave, rfl⟩ := h
      exact .leave ‹_› hr hleave
    · cases h
  | cancel c =>
    simp only [step, Option.bind_eq_bind, Option.bind_eq_some_iff, Option.ite_none_right_eq_some] at h
    obtain ⟨x, hx, hfree, h⟩ := h
    split at h
    · cases h; exact .cancelNone hx ‹_›
    · obtain ⟨r, hr, rfl⟩ := Option.map_eq_some_iff.1 h
      exact .cancel hx hfree ‹_› hr

end ThreadHandler

end Asgiref.SyncToAsync
