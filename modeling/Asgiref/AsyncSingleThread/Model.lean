import Asgiref.Lib.Machine
import Asgiref.Python.Basic
import Mathlib.Logic.Function.Basic
import Mathlib.Data.List.Basic

/-!
# Loops in an `AsyncSingleThreadContext`

Trees of calls whose `AsyncToSync` calls look for a parent loop, and which submit `asyncio.run` to the one worker
of the context object they carry where they find none.

* `Body`, `State`: functions on threads and coroutines on loops, the thread-locals, the pools and the table
  `AsyncToSync.context_to_thread_executor`;
* `mainEventLoop`, `acceptedBy`, `callAsync`: the choice of the loop by `AsyncToSync.__call__`;
* `step`, `machine`: any number of trees and threads; `StepTo`: what a step can do.

A coroutine of an `AsyncToSync` call can see the executor of the call, so that its thread-sensitive functions are
run by the thread of the caller, which waits; every other function is run by an idle thread.  Where `shutdown()`
waits is left out: it only delays a body.
-/

namespace Asgiref.AsyncSingleThread

open Asgiref.Python Asgiref.Lib

/-- An `AsyncSingleThreadContext` object. -/
abbrev ContextId := Nat
abbrev PoolId := Nat
abbrev LoopId := Nat
abbrev BodyId := Nat

inductive Kind where
  /-- A function that no coroutine awaits. -/
  | root
  /-- A function that `thread_handler` runs for the loop `l`, handed to the executor of the `AsyncToSync` call of the
  function `h`, or to a pool. -/
  | handler (l : LoopId) (h : Option BodyId)
  /-- A function that `asyncio.to_thread` runs. -/
  | toThread
  /-- The coroutine of an `AsyncToSync` call by the function `caller`, submitted to `pool` where it found no parent loop;
  with no caller, one that the user runs. -/
  | coroutine (caller : Option BodyId) (pool : Option PoolId)
  deriving DecidableEq

inductive Phase where
  /-- Not started. -/
  | queued
  /-- A function, in code of its own. -/
  | onThread (t : ThreadId)
  /-- A function, in `run_until_future` of its call with the coroutine `a`. -/
  | blocked (t : ThreadId) (a : BodyId)
  /-- A function, in `run_until_future` of a call whose `call_result` nobody resolves. -/
  | abandoned (t : ThreadId)
  | onLoop (l : LoopId)
  | ended
  deriving DecidableEq

/-- The thread that a started function has not left. -/
def Phase.thread? : Phase → Option ThreadId
  | .onThread t | .blocked t _ | .abandoned t => some t
  | _ => none

/-- A function or a coroutine, with its context. -/
structure Body where
  kind : Kind
  /-- History: the bodies that wait for this one, the innermost first. -/
  above : List BodyId
  /-- `AsyncToSync.async_single_thread_context` -/
  single : Option ContextId := none
  phase : Phase := .queued
  /-- The functions the coroutine awaits, several where it does so in tasks. -/
  awaiting : List BodyId := []
  /-- One of the calls of the coroutine waits for a future that nobody resolves. -/
  stranded : Bool := false

/-- `token`, with the body in whose context it was set. -/
structure Token where
  body : BodyId
  used : Bool := false

structure Loop where
  /-- The coroutines that have not ended. -/
  tasks : List BodyId
  isClosed : Bool := false

/-- `ThreadPoolExecutor(max_workers=1)` for `asyncio.run`; in the table under its owner, if it has one. -/
structure Pool where
  owner : Option ContextId
  /-- What the worker runs, and its loop. -/
  current : Option (BodyId × LoopId) := none
  queue : List BodyId := []

/-- `SyncToAsync.threadlocal` -/
structure ThreadLocal where
  mainEventLoop : LoopId
  mainEventLoopPid : Nat
  deriving DecidableEq

structure Thread where
  /-- The functions the thread has not left, the innermost first. -/
  stack : List BodyId := []
  threadlocal : Option ThreadLocal := none

structure State where
  /-- `os.getpid()` -/
  pid : Nat
  bodies : BodyId → Option Body := fun _ => none
  threads : ThreadId → Thread := fun _ => {}
  loops : LoopId → Option Loop := fun _ => none
  pools : PoolId → Option Pool := fun _ => none
  /-- `AsyncToSync.context_to_thread_executor` -/
  table : ContextId → Option PoolId := fun _ => none
  tokens : ContextId → Option Token := fun _ => none

namespace State

variable (s : State)

def setBody (i : BodyId) (x : Body) : State := { s with bodies := Function.update s.bodies i (some x) }
def setThread (t : ThreadId) (x : Thread) : State := { s with threads := Function.update s.threads t x }
def setLoop (l : LoopId) (x : Loop) : State := { s with loops := Function.update s.loops l (some x) }
def setPool (p : PoolId) (x : Pool) : State := { s with pools := Function.update s.pools p (some x) }
def setTable (m : ContextId) (p : Option PoolId) : State := { s with table := Function.update s.table m p }
def setToken (m : ContextId) (k : Token) : State := { s with tokens := Function.update s.tokens m (some k) }

@[simp] theorem bodies_setBody (i j : BodyId) (x : Body) :
    (s.setBody i x).bodies j = if j = i then some x else s.bodies j := by
  simp only [setBody, Function.update_apply]

@[simp] theorem threads_setThread (t u : ThreadId) (x : Thread) :
    (s.setThread t x).threads u = if u = t then x else s.threads u := by
  simp only [setThread, Function.update_apply]

@[simp] theorem loops_setLoop (l k : LoopId) (x : Loop) :
    (s.setLoop l x).loops k = if k = l then some x else s.loops k := by
  simp only [setLoop, Function.update_apply]

@[simp] theorem pools_setPool (p q : PoolId) (x : Pool) :
    (s.setPool p x).pools q = if q = p then some x else s.pools q := by
  simp only [setPool, Function.update_apply]

@[simp] theorem table_setTable (m n : ContextId) (p : Option PoolId) :
    (s.setTable m p).table n = if n = m then p else s.table n := by
  simp only [setTable, Function.update_apply]

@[simp] theorem tokens_setToken (m n : ContextId) (k : Token) :
    (s.setToken m k).tokens n = if n = m then some k else s.tokens n := by
  simp only [setToken, Function.update_apply]

/-- The loop has not been closed. -/
def isOpen (l : LoopId) : Bool :=
  match s.loops l with
  | some x => !x.isClosed
  | none => false

/-- The coroutine that the worker of the context object `m` is running. -/
def worker (m : ContextId) : Option BodyId := do
  let p ← s.table m
  let x ← s.pools p
  x.current.map Prod.fst

/-- The body goes on to the phase `f`. -/
def goTo (i : BodyId) (x : Body) (f : Phase) : State := s.setBody i { x with phase := f }

end State

inductive Action where
  /-- Code of the user starts on the idle thread `t`. -/
  | root (f : BodyId) (t : ThreadId)
  /-- The user runs a coroutine on the fresh loop `l`. -/
  | rootLoop (b : BodyId) (l : LoopId)
  /-- `AsyncSingleThreadContext.__enter__` of the object `m` in the body `i` -/
  | enter (i : BodyId) (m : ContextId)
  /-- `AsyncSingleThreadContext.__exit__` -/
  | exit (i : BodyId) (m : ContextId)
  /-- The coroutine `b` calls `SyncToAsync` with the function `f`. -/
  | callSync (b f : BodyId) (threadSensitive : Bool)
  /-- The coroutine `b` calls `asyncio.to_thread` with the function `f`. -/
  | toThread (b f : BodyId)
  /-- The thread `t` starts the function. -/
  | start (f : BodyId) (t : ThreadId)
  /-- The function `f` calls `AsyncToSync` with the coroutine `a`; `p` is the pool that is made if one is needed. -/
  | callAsync (f a : BodyId) (forceNewLoop : Bool) (p : PoolId)
  /-- The function `f` calls `AsyncToSync`, the parent loop takes the call, and `main_wrap` does not come to its `try`
  statement: its `_restore_context` raises, or its task is cancelled before it starts.  The coroutine never starts. -/
  | abandon (f : BodyId)
  /-- The worker of the pool takes the next `asyncio.run`, with the fresh loop `l`. -/
  | runLoop (p : PoolId) (l : LoopId)
  | endCoroutine (b : BodyId)
  /-- `asyncio.run` closes its loop, after all tasks on it have ended. -/
  | closeLoop (l : LoopId)
  /-- `asyncio.run` has returned in the worker. -/
  | release (p : PoolId)
  /-- The `AsyncToSync` call of `f` returns. -/
  | returnAsync (f : BodyId)
  | endFunction (f : BodyId)
  /-- The call of `b` with the function `f` returns, `direct` if it was not made in a task of its own. -/
  | resume (b f : BodyId) (direct : Bool)
  /-- The future of the call of `b` with the function `f` does not take what `f` has raised, a `StopIteration`: the call
  never returns. -/
  | strand (b f : BodyId)

/-- What `AsyncToSync.__call__` takes for its parent loop. -/
def mainEventLoop (s : State) (t : ThreadId) (forceNewLoop : Bool) : Option LoopId :=
  if forceNewLoop then none
  else
    match (s.threads t).threadlocal with
    | some tl => if tl.mainEventLoopPid = s.pid then some tl.mainEventLoop else none
    | none => none

/-- A closed loop makes `call_soon_threadsafe` raise `RuntimeError`, and the call goes the way of a new loop. -/
def acceptedBy (s : State) (l : Option LoopId) : Option LoopId :=
  match l with
  | some l => if s.isOpen l then some l else none
  | none => none

theorem isOpen_of_accepted {s : State} {o : Option LoopId} {l : LoopId} (h : acceptedBy s o = some l) :
    s.isOpen l = true := by
  unfold acceptedBy at h
  split at h
  · split at h
    · cases h
      assumption
    · cases h
  · cases h

/-- The pool of a call without a parent loop, in a context with the object `single`, and the state in which it
exists; `p` is the identity of a new one. -/
def loopExecutor (s : State) (single : Option ContextId) (p : PoolId) : Option (PoolId × State) :=
  match single with
  | some m =>
    match s.table m with
    | some q => some (q, s)
    | none => if (s.pools p).isNone then some (p, (s.setPool p { owner := some m }).setTable m (some p)) else none
  | none => if (s.pools p).isNone then some (p, s.setPool p { owner := none }) else none

/-- `loop_executor.submit(asyncio.run, new_loop_wrap())` -/
def submit (s : State) (p : PoolId) (a : BodyId) : Option State :=
  (s.pools p).map fun x => s.setPool p { x with queue := x.queue ++ [a] }

/-- `AsyncToSync.__call__` of the function `f` on the thread `t` up to `run_until_future`. -/
def callAsync (s : State) (f : BodyId) (x : Body) (t : ThreadId) (a : BodyId) (forceNewLoop : Bool) (p : PoolId) :
    Option State :=
  let waiting := s.goTo f x (.blocked t a)
  match acceptedBy s (mainEventLoop s t forceNewLoop) with
  | some l => do
    let k ← s.loops l
    some ((waiting.setBody a
      { kind := .coroutine (some f) none, above := f :: x.above, single := x.single, phase := .onLoop l }).setLoop l
        { k with tasks := a :: k.tasks })
  | none => do
    let (q, s') ← loopExecutor waiting x.single p
    submit (s'.setBody a { kind := .coroutine (some f) (some q), above := f :: x.above, single := x.single }) q a

/-- The thread can take the function: it waits for the coroutine of the call whose executor has it, or is idle. -/
def takes (s : State) (t : ThreadId) (h : Option BodyId) : Bool :=
  match h, (s.threads t).stack with
  | none, [] => true
  | some h, g :: _ =>
    g = h && match s.bodies h with
      | some x => match x.phase with
        | .blocked u _ => u = t
        | _ => false
      | none => false
  | _, _ => false

theorem takes_some {s : State} {t : ThreadId} {h : BodyId} (ht : takes s t (some h) = true) :
    ∃ rest x a, (s.threads t).stack = h :: rest ∧ s.bodies h = some x ∧ x.phase = .blocked t a := by
  unfold takes at ht
  split at ht
  · cases ‹some h = none›
  · next g rest hh hstack =>
    cases hh
    simp only [Bool.and_eq_true, decide_eq_true_eq] at ht
    obtain ⟨rfl, ht⟩ := ht
    split at ht
    · next x hx =>
      split at ht
      · next u a hphase =>
        obtain rfl : u = t := by simpa using ht
        exact ⟨rest, x, a, hstack, hx, hphase⟩
      · cases ht
    · cases ht
  · cases ht

theorem takes_none {s : State} {t : ThreadId} (ht : takes s t none = true) : (s.threads t).stack = [] := by
  unfold takes at ht
  split at ht
  · assumption
  · cases ‹none = some _›
  · cases ht

/-- The function `f` starts on the thread `t`. -/
def start (s : State) (f : BodyId) (y : Body) (t : ThreadId) (threadlocal : Option ThreadLocal) : State :=
  (s.goTo f y (.onThread t)).setThread t { stack := f :: (s.threads t).stack, threadlocal := threadlocal }

/-- The worker is through with the `asyncio.run` of the coroutine `a`. -/
def released (s : State) (a : BodyId) (y : Body) : Bool :=
  match y.kind with
  | .coroutine _ (some p) =>
    match s.pools p with
    | some x => x.current.map Prod.fst ≠ some a
    | none => true
  | _ => true

/-- `_restore_context`, as far as this variable goes. -/
def restore (inner outer : Option ContextId) : Option ContextId :=
  match inner with
  | some m => some m
  | none => outer

/-- The body runs code of its own. -/
def Phase.isRunning : Phase → Bool
  | .onThread _ | .onLoop _ => true
  | _ => false

def step (s : State) : Action → Option State
  | .root f t =>
    if (s.bodies f).isNone ∧ (s.threads t).stack = [] then
      some ((s.setBody f { kind := .root, above := [], phase := .onThread t }).setThread t
        { s.threads t with stack := [f] })
    else none
  | .rootLoop b l =>
    if (s.bodies b).isNone ∧ (s.loops l).isNone then
      some ((s.setBody b { kind := .coroutine none none, above := [], phase := .onLoop l }).setLoop l { tasks := [b] })
    else none
  | .enter i m => do
    let x ← s.bodies i
    if x.phase.isRunning then
      match x.single with
      | some _ => some s
      | none => some ((s.setBody i { x with single := some m }).setToken m { body := i })
    else none
  | .exit i m => do
    let x ← s.bodies i
    if x.phase.isRunning then
      match s.tokens m with
      | none => some s
      | some k =>
        -- `reset` raises for a token that was used or is of another context
        if k.body = i ∧ k.used = false then
          some (((s.setTable m none).setBody i { x with single := none }).setToken m { k with used := true })
        else some (s.setTable m none)
    else none
  | .callSync b f threadSensitive => do
    let c ← s.bodies b
    match c.kind, c.phase with
    | .coroutine caller _, .onLoop l =>
      if (s.bodies f).isNone then
        some ((s.setBody f
          { kind := .handler l (if threadSensitive then caller else none), above := b :: c.above,
            single := c.single }).setBody b { c with awaiting := f :: c.awaiting })
      else none
    | _, _ => none
  | .toThread b f => do
    let c ← s.bodies b
    match c.phase with
    | .onLoop _ =>
      if (s.bodies f).isNone then
        some ((s.setBody f { kind := .toThread, above := b :: c.above, single := c.single }).setBody b
          { c with awaiting := f :: c.awaiting })
      else none
    | _ => none
  | .start f t => do
    let y ← s.bodies f
    match y.phase, y.kind with
    | .queued, .handler l h =>
      if takes s t h then some (start s f y t (some { mainEventLoop := l, mainEventLoopPid := s.pid })) else none
    | .queued, .toThread => if takes s t none then some (start s f y t (s.threads t).threadlocal) else none
    | _, _ => none
  | .callAsync f a forceNewLoop p => do
    let x ← s.bodies f
    match x.phase with
    | .onThread t => if (s.bodies a).isNone then callAsync s f x t a forceNewLoop p else none
    | _ => none
  | .abandon f => do
    let x ← s.bodies f
    match x.phase with
    | .onThread t => if (acceptedBy s (mainEventLoop s t false)).isSome then some (s.goTo f x (.abandoned t)) else none
    | _ => none
  | .runLoop p l => do
    let x ← s.pools p
    match x.current, x.queue with
    | none, a :: rest => do
      let c ← s.bodies a
      if c.phase = .queued ∧ (s.loops l).isNone then
        some (((s.goTo a c (.onLoop l)).setPool p { x with current := some (a, l), queue := rest }).setLoop l
          { tasks := [a] })
      else none
    | _, _ => none
  | .endCoroutine b => do
    let c ← s.bodies b
    match c.phase, c.awaiting, c.stranded with
    | .onLoop l, [], false => do
      let k ← s.loops l
      some ((s.goTo b c .ended).setLoop l { k with tasks := k.tasks.erase b })
    | _, _, _ => none
  | .closeLoop l => do
    let k ← s.loops l
    if k.tasks = [] then some (s.setLoop l { k with isClosed := true }) else none
  | .release p => do
    let x ← s.pools p
    let (_, l) ← x.current
    if s.isOpen l then none else some (s.setPool p { x with current := none })
  | .returnAsync f => do
    let x ← s.bodies f
    match x.phase with
    | .blocked t a => do
      let y ← s.bodies a
      if y.phase = .ended ∧ released s a y then
        some (s.setBody f { x with phase := .onThread t, single := restore y.single x.single })
      else none
    | _ => none
  | .endFunction f => do
    let x ← s.bodies f
    match x.phase with
    | .onThread t =>
      match (s.threads t).stack with
      | g :: rest =>
        if g = f then some ((s.goTo f x .ended).setThread t { s.threads t with stack := rest }) else none
      | [] => none
    | _ => none
  | .resume b f direct => do
    let c ← s.bodies b
    let y ← s.bodies f
    if f ∈ c.awaiting ∧ y.phase = .ended then
      match y.kind with
      | .handler _ _ =>
        some (s.setBody b { c with
          awaiting := c.awaiting.erase f, single := if direct then restore y.single c.single else c.single })
      | _ => some (s.setBody b { c with awaiting := c.awaiting.erase f })
    else none
  | .strand b f => do
    let c ← s.bodies b
    let y ← s.bodies f
    match c.phase with
    | .onLoop _ =>
      if f ∈ c.awaiting ∧ y.phase = .ended then
        some (s.setBody b { c with awaiting := c.awaiting.erase f, stranded := true })
      else none
    | _ => none

/-- Functions, coroutines, threads and loops of one process. -/
def machine : Machine State Action := ⟨step⟩

/-! ### What a step can do -/

/-- The coroutine `a` of a call by the function `f`, whose body is `x`. -/
def called (f : BodyId) (x : Body) (pool : Option PoolId) (phase : Phase) : Body :=
  { kind := .coroutine (some f) pool, above := f :: x.above, single := x.single, phase := phase }

/-- The function that the coroutine `b`, whose body is `c`, awaits. -/
def awaited (b : BodyId) (c : Body) (kind : Kind) : Body :=
  { kind := kind, above := b :: c.above, single := c.single }

/-- The steps of the machine, one constructor for each path through the code. -/
inductive StepTo (s : State) : Action → State → Prop where
  | entered {i m} : StepTo s (.enter i m) s
  | notEntered {i m} : StepTo s (.exit i m) s
  | root {f t} : s.bodies f = none → (s.threads t).stack = [] →
      StepTo s (.root f t) ((s.setBody f { kind := .root, above := [], phase := .onThread t }).setThread t
        { s.threads t with stack := [f] })
  | rootLoop {b l} : s.bodies b = none → s.loops l = none →
      StepTo s (.rootLoop b l)
        ((s.setBody b { kind := .coroutine none none, above := [], phase := .onLoop l }).setLoop l { tasks := [b] })
  | enter {i m x} : s.bodies i = some x → x.single = none →
      StepTo s (.enter i m) ((s.setBody i { x with single := some m }).setToken m { body := i })
  | pop {i m} : StepTo s (.exit i m) (s.setTable m none)
  | reset {i m x k} : s.bodies i = some x → s.tokens m = some k → k.body = i → k.used = false →
      StepTo s (.exit i m)
        (((s.setTable m none).setBody i { x with single := none }).setToken m { k with used := true })
  | callSync {b f ts c caller p l} : s.bodies b = some c → c.kind = .coroutine caller p → c.phase = .onLoop l →
      s.bodies f = none →
      StepTo s (.callSync b f ts) ((s.setBody f (awaited b c (.handler l (if ts then caller else none)))).setBody b
        { c with awaiting := f :: c.awaiting })
  | toThread {b f c l} : s.bodies b = some c → c.phase = .onLoop l → s.bodies f = none →
      StepTo s (.toThread b f) ((s.setBody f (awaited b c .toThread)).setBody b { c with awaiting := f :: c.awaiting })
  | startHandler {f t y l h} : s.bodies f = some y → y.phase = .queued → y.kind = .handler l h → takes s t h = true →
      StepTo s (.start f t) (start s f y t (some { mainEventLoop := l, mainEventLoopPid := s.pid }))
  | startThread {f t y} : s.bodies f = some y → y.phase = .queued → y.kind = .toThread → (s.threads t).stack = [] →
      StepTo s (.start f t) (start s f y t (s.threads t).threadlocal)
  | callParent {f a force p x t l k} : s.bodies f = some x → x.phase = .onThread t → s.bodies a = none →
      acceptedBy s (mainEventLoop s t force) = some l → s.loops l = some k →
      StepTo s (.callAsync f a force p) (((s.goTo f x (.blocked t a)).setBody a (called f x none (.onLoop l))).setLoop l
        { k with tasks := a :: k.tasks })
  | callTable {f a force p x t m q y} : s.bodies f = some x → x.phase = .onThread t → s.bodies a = none →
      acceptedBy s (mainEventLoop s t force) = none → x.single = some m → s.table m = some q → s.pools q = some y →
      StepTo s (.callAsync f a force p) (((s.goTo f x (.blocked t a)).setBody a (called f x (some q) .queued)).setPool q
        { y with queue := y.queue ++ [a] })
  | callNew {f a force p x t m} : s.bodies f = some x → x.phase = .onThread t → s.bodies a = none →
      acceptedBy s (mainEventLoop s t force) = none → x.single = some m → s.table m = none → s.pools p = none →
      StepTo s (.callAsync f a force p) (((s.goTo f x (.blocked t a)).setBody a (called f x (some p) .queued)).setPool p
        { owner := some m, queue := [a] } |>.setTable m (some p))
  | callOwn {f a force p x t} : s.bodies f = some x → x.phase = .onThread t → s.bodies a = none →
      acceptedBy s (mainEventLoop s t force) = none → x.single = none → s.pools p = none →
      StepTo s (.callAsync f a force p) (((s.goTo f x (.blocked t a)).setBody a (called f x (some p) .queued)).setPool p
        { owner := none, queue := [a] })
  | abandon {f x t} : s.bodies f = some x → x.phase = .onThread t →
      StepTo s (.abandon f) (s.goTo f x (.abandoned t))
  | runLoop {p l x a rest c} : s.pools p = some x → x.current = none → x.queue = a :: rest → s.bodies a = some c →
      c.phase = .queued → s.loops l = none →
      StepTo s (.runLoop p l) (((s.goTo a c (.onLoop l)).setPool p
        { x with current := some (a, l), queue := rest }).setLoop l { tasks := [a] })
  | endCoroutine {b c l k} : s.bodies b = some c → c.phase = .onLoop l → c.awaiting = [] → c.stranded = false →
      s.loops l = some k → StepTo s (.endCoroutine b) ((s.goTo b c .ended).setLoop l { k with tasks := k.tasks.erase b })
  | closeLoop {l k} : s.loops l = some k → k.tasks = [] →
      StepTo s (.closeLoop l) (s.setLoop l { k with isClosed := true })
  | release {p x} : s.pools p = some x → StepTo s (.release p) (s.setPool p { x with current := none })
  | returnAsync {f x t a y} : s.bodies f = some x → x.phase = .blocked t a → s.bodies a = some y → y.phase = .ended →
      StepTo s (.returnAsync f)
        (s.setBody f { x with phase := .onThread t, single := restore y.single x.single })
  | endFunction {f x t rest} : s.bodies f = some x → x.phase = .onThread t → (s.threads t).stack = f :: rest →
      StepTo s (.endFunction f) ((s.goTo f x .ended).setThread t { s.threads t with stack := rest })
  | resume {b f direct c y o} : s.bodies b = some c → s.bodies f = some y → f ∈ c.awaiting → y.phase = .ended →
      o = c.single ∨ o = restore y.single c.single →
      StepTo s (.resume b f direct) (s.setBody b { c with awaiting := c.awaiting.erase f, single := o })
  | strand {b f c y l} : s.bodies b = some c → s.bodies f = some y → c.phase = .onLoop l → f ∈ c.awaiting →
      y.phase = .ended →
      StepTo s (.strand b f) (s.setBody b { c with awaiting := c.awaiting.erase f, stranded := true })

/-- The call without a parent loop: a pool is taken from the table or made. -/
theorem stepTo_of_submit {s s' : State} {f a : BodyId} {force : Bool} {p : PoolId} {x : Body} {t : ThreadId}
    (hx : s.bodies f = some x) (hphase : x.phase = .onThread t) (ha : s.bodies a = none)
    (hloop : acceptedBy s (mainEventLoop s t force) = none) (h : callAsync s f x t a force p = some s') :
    StepTo s (.callAsync f a force p) s' := by
  simp only [callAsync, hloop, Option.bind_eq_bind, Option.bind_eq_some_iff] at h
  obtain ⟨⟨q, u⟩, hq, h⟩ := h
  obtain ⟨y, hy, rfl⟩ := Option.map_eq_some_iff.1 h
  unfold loopExecutor at hq
  split at hq
  · next m hm =>
    split at hq
    · cases hq
      exact .callTable hx hphase ha hloop hm ‹_› hy
    · simp only [Option.ite_none_right_eq_some, Option.isNone_iff_eq_none, Option.some.injEq, Prod.mk.injEq] at hq
      obtain ⟨hp, rfl, rfl⟩ := hq
      obtain rfl : y = { owner := some m } := by simpa [State.setTable, State.setBody, State.setPool] using hy.symm
      have hnew : StepTo s (.callAsync f a force p) _ := .callNew hx hphase ha hloop hm ‹_› hp
      simpa [State.setTable, State.setBody, State.setPool, called] using hnew
  · simp only [Option.ite_none_right_eq_some, Option.isNone_iff_eq_none, Option.some.injEq, Prod.mk.injEq] at hq
    obtain ⟨hp, rfl, rfl⟩ := hq
    obtain rfl : y = { owner := none } := by simpa [State.setBody, State.setPool] using hy.symm
    have hown : StepTo s (.callAsync f a force p) _ := .callOwn hx hphase ha hloop ‹_› hp
    simpa [State.setBody, State.setPool, called] using hown

theorem stepTo_of_step {s s' : State} {a : Action} (h : step s a = some s') : StepTo s a s' := by
  cases a with
  | root f t =>
    simp only [step, Option.ite_none_right_eq_some, Option.isNone_iff_eq_none, Option.some.injEq] at h
    obtain ⟨⟨hf, hstack⟩, rfl⟩ := h
    exact .root hf hstack
  | rootLoop b l =>
    simp only [step, Option.ite_none_right_eq_some, Option.isNone_iff_eq_none, Option.some.injEq] at h
    obtain ⟨⟨hb, hl⟩, rfl⟩ := h
    exact .rootLoop hb hl
  | enter i m =>
    simp only [step, Option.bind_eq_bind, Option.bind_eq_some_iff, Option.ite_none_right_eq_some] at h
    obtain ⟨x, hx, -, h⟩ := h
    split at h <;> cases h
    · exact .entered
    · exact .enter hx ‹_›
  | exit i m =>
    simp only [step, Option.bind_eq_bind, Option.bind_eq_some_iff, Option.ite_none_right_eq_some] at h
    obtain ⟨x, hx, -, h⟩ := h
    split at h
    · cases h
      exact .notEntered
    · split at h <;> cases h
      · next hk => exact .reset hx ‹_› hk.1 hk.2
      · exact .pop
  | callSync b f ts =>
    simp only [step, Option.bind_eq_bind, Option.bind_eq_some_iff] at h
    obtain ⟨c, hc, h⟩ := h
    split at h
    · simp only [Option.ite_none_right_eq_some, Option.isNone_iff_eq_none, Option.some.injEq] at h
      obtain ⟨hf, rfl⟩ := h
      exact .callSync hc ‹_› ‹_› hf
    · cases h
  | toThread b f =>
    simp only [step, Option.bind_eq_bind, Option.bind_eq_some_iff] at h
    obtain ⟨c, hc, h⟩ := h
    split at h
    · simp only [Option.ite_none_right_eq_some, Option.isNone_iff_eq_none, Option.some.injEq] at h
      obtain ⟨hf, rfl⟩ := h
      exact .toThread hc ‹_› hf
    · cases h
  | start f t =>
    simp only [step, Option.bind_eq_bind, Option.bind_eq_some_iff] at h
    obtain ⟨y, hy, h⟩ := h
    split at h
    · simp only [Option.ite_none_right_eq_some, Option.some.injEq] at h
      obtain ⟨ht, rfl⟩ := h
      exact .startHandler hy ‹_› ‹_› ht
    · simp only [Option.ite_none_right_eq_some, Option.some.injEq] at h
      obtain ⟨ht, rfl⟩ := h
      exact .startThread hy ‹_› ‹_› (takes_none ht)
    · cases h
  | callAsync f a force p =>
    simp only [step, Option.bind_eq_bind, Option.bind_eq_some_iff] at h
    obtain ⟨x, hx, h⟩ := h
    split at h
    · simp only [Option.ite_none_right_eq_some, Option.isNone_iff_eq_none] at h
      obtain ⟨ha, h⟩ := h
      cases hloop : acceptedBy s (mainEventLoop s _ force) with
      | none => exact stepTo_of_submit hx ‹_› ha hloop h
      | some l =>
        simp only [callAsync, hloop, Option.bind_eq_bind, Option.bind_eq_some_iff, Option.some.injEq] at h
        obtain ⟨k, hk, rfl⟩ := h
        exact .callParent hx ‹_› ha hloop hk
    · cases h
  | abandon f =>
    simp only [step, Option.bind_eq_bind, Option.bind_eq_some_iff] at h
    obtain ⟨x, hx, h⟩ := h
    split at h
    · simp only [Option.ite_none_right_eq_some, Option.some.injEq] at h
      obtain ⟨-, rfl⟩ := h
      exact .abandon hx ‹_›
    · cases h
  | runLoop p l =>
    simp only [step, Option.bind_eq_bind, Option.bind_eq_some_iff] at h
    obtain ⟨x, hx, h⟩ := h
    split at h
    · simp only [Option.bind_eq_some_iff, Option.ite_none_right_eq_some, Option.isNone_iff_eq_none,
        Option.some.injEq] at h
      obtain ⟨c, hc, ⟨hphase, hl⟩, rfl⟩ := h
      exact .runLoop hx ‹_› ‹_› hc hphase hl
    · cases h
  | endCoroutine b =>
    simp only [step, Option.bind_eq_bind, Option.bind_eq_some_iff] at h
    obtain ⟨c, hc, h⟩ := h
    split at h
    · simp only [Option.bind_eq_some_iff, Option.some.injEq] at h
      obtain ⟨k, hk, rfl⟩ := h
      exact .endCoroutine hc ‹_› ‹_› ‹_› hk
    · cases h
  | closeLoop l =>
    simp only [step, Option.bind_eq_bind, Option.bind_eq_some_iff, Option.ite_none_right_eq_some,
      Option.some.injEq] at h
    obtain ⟨k, hk, hempty, rfl⟩ := h
    exact .closeLoop hk hempty
  | release p =>
    simp only [step, Option.bind_eq_bind, Option.bind_eq_some_iff] at h
    obtain ⟨x, hx, ⟨b, l⟩, -, h⟩ := h
    split at h <;> cases h
    exact .release hx
  | returnAsync f =>
    simp only [step, Option.bind_eq_bind, Option.bind_eq_some_iff] at h
    obtain ⟨x, hx, h⟩ := h
    split at h
    · simp only [Option.bind_eq_some_iff, Option.ite_none_right_eq_some, Option.some.injEq] at h
      obtain ⟨y, hy, ⟨hended, -⟩, rfl⟩ := h
      exact .returnAsync hx ‹_› hy hended
    · cases h
  | endFunction f =>
    simp only [step, Option.bind_eq_bind, Option.bind_eq_some_iff] at h
    obtain ⟨x, hx, h⟩ := h
    split at h
    · split at h
      · simp only [Option.ite_none_right_eq_some, Option.some.injEq] at h
        obtain ⟨rfl, rfl⟩ := h
        exact .endFunction hx ‹_› ‹_›
      · cases h
    · cases h
  | resume b f direct =>
    simp only [step, Option.bind_eq_bind, Option.bind_eq_some_iff, Option.ite_none_right_eq_some] at h
    obtain ⟨c, hc, y, hy, ⟨hf, hended⟩, h⟩ := h
    split at h <;> cases h
    · refine .resume hc hy hf hended ?_
      cases direct
      · exact .inl rfl
      · exact .inr rfl
    · exact .resume hc hy hf hended (.inl rfl)
  | strand b f =>
    simp only [step, Option.bind_eq_bind, Option.bind_eq_some_iff] at h
    obtain ⟨c, hc, y, hy, h⟩ := h
    split at h
    · simp only [Option.ite_none_right_eq_some, Option.some.injEq] at h
      obtain ⟨⟨hf, hended⟩, rfl⟩ := h
      exact .strand hc hy ‹_› hf hended
    · cases h

end Asgiref.AsyncSingleThread
