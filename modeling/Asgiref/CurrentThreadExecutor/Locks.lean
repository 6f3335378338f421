import Asgiref.CurrentThreadExecutor.Model

/-!
# The blocks of `_work_ready`, line by line

In `machine` a `with _work_ready` block is one action.  Here a thread takes the lock and executes the block line
by line, and the lines of different executors, and everything that is done without a lock, come in between.

* `Holder` — the thread that holds the lock of an executor, and the line it executes next;
* `Locked` — the executors and the items, with the locks;
* `loopLine`, `enterLine`, `doneLine`, `submitLine` — the lines of the four blocks;
* `Move`, `locked` — who may do what, and what it does.

A waiter is in the list of the condition before `wait()` gives the lock back, so `wait()` is one line.
-/

namespace Asgiref.CurrentThreadExecutor

open Asgiref.Python Asgiref.Lib

/-- The lines of the block in `run_until_future`. -/
inductive LoopLine where
  /-- `while not self._work_items …` -/
  | testItems
  /-- `… and not self._broken` -/
  | testBroken
  /-- `self._work_ready.wait()` -/
  | wait
  /-- `if not self._work_items` -/
  | check
  /-- `break` -/
  | quit
  /-- `work_item = self._work_items.popleft()` -/
  | pop
  /-- The end of the block, with `work_item` taken out. -/
  | leave (i : ItemId)
  deriving DecidableEq

/-- The lines of the block in `done`. -/
inductive DoneLine where
  /-- `self._broken = True` -/
  | set
  /-- `self._work_ready.notify()` -/
  | notify
  | leave
  deriving DecidableEq

/-- The lines of the block in `submit`. -/
inductive SubmitLine where
  /-- `if not executor._broken` -/
  | test
  /-- `executor._work_items.append(work_item)` -/
  | append
  /-- `executor._work_ready.notify()` -/
  | notify
  /-- `break` -/
  | leave
  /-- The end of the block of a broken executor, and the step to `_old_executor`. -/
  | next
  deriving DecidableEq

/-- The thread that holds the lock of an executor, at the line it executes next. -/
inductive Holder where
  /-- The work thread in its loop. -/
  | loop (l : LoopLine)
  /-- The work thread in `add_done_callback`, which runs `done` at once if the future is done. -/
  | enter (l : DoneLine)
  /-- The thread that resolved the future, in `done`. -/
  | done (l : DoneLine)
  /-- The submitter of `i`. -/
  | submit (i : ItemId) (l : SubmitLine)
  deriving DecidableEq

/-- The executors and the items, and who holds the lock of each executor. -/
structure Locked where
  base : State
  holder : ExecutorId → Option Holder

namespace Locked

variable (s : Locked)

def init : Locked := ⟨State.init, fun _ => none⟩

/-- The executor `e` becomes `x`, and its lock is with `h`. -/
def put (e : ExecutorId) (x : Executor) (h : Option Holder) : Locked :=
  ⟨s.base.setExec e x, Function.update s.holder e h⟩

def setItem (i : ItemId) (it : WorkItem) : Locked := ⟨s.base.setItem i it, s.holder⟩

end Locked

/-- The `with self._work_ready` block of `run_until_future`. -/
def loopLine (s : Locked) (e : ExecutorId) (x : Executor) : LoopLine → Option Locked
  | .testItems => some (s.put e x (some (.loop (if x.workItems.isEmpty then .testBroken else .check))))
  | .testBroken => some (s.put e x (some (.loop (if x.broken then .check else .wait))))
  | .wait => some (s.put e { x with pc := .waiting false } none)
  | .check => some (s.put e x (some (.loop (if x.workItems.isEmpty then .quit else .pop))))
  | .quit => some (s.put e { x with pc := .returned } none)
  | .pop =>
    match x.workItems with
    | [] => some (s.put e { x with pc := .escaped .indexError } none)
    | i :: rest =>
      (s.base.items i).map fun it =>
        (s.put e { x with workItems := rest, taken := x.taken ++ [i] } (some (.loop (.leave i)))).setItem i
          { it with place := .popped e }
  | .leave i => some (s.put e { x with pc := .popped i } none)

/-- `done`, run by `add_done_callback` on the work thread, which then goes on to its loop. -/
def enterLine (s : Locked) (e : ExecutorId) (x : Executor) : DoneLine → Locked
  | .set => s.put e { x with broken := true } (some (.enter .notify))
  | .notify => s.put e x.notify (some (.enter .leave))
  | .leave => s.put e { x with pc := .locking } none

/-- `done`, run by the thread that resolved the future.  A future runs a callback once. -/
def doneLine (s : Locked) (e : ExecutorId) (x : Executor) : DoneLine → Locked
  | .set => s.put e { x with broken := true, registered := false } (some (.done .notify))
  | .notify => s.put e x.notify (some (.done .leave))
  | .leave => s.put e x none

/-- The `with executor._work_ready` block of `submit`, for the item `i`. -/
def submitLine (s : Locked) (e : ExecutorId) (x : Executor) (i : ItemId) : SubmitLine → Option Locked
  | .test => some (s.put e x (some (.submit i (if x.broken then .next else .append))))
  | .append =>
    (s.base.items i).map fun it =>
      (s.put e { x with workItems := x.workItems ++ [i], appended := x.appended ++ [i] }
        (some (.submit i .notify))).setItem i { it with place := .queued e }
  | .notify => some (s.put e x.notify (some (.submit i .leave)))
  | .leave => some (s.put e x none)
  | .next =>
    (s.base.items i).map fun it =>
      (s.put e x none).setItem i { it with place := x.oldExecutor.elim .rejected .walking }

/-- The thread that holds the lock of `e` executes its next line. -/
def Locked.line (s : Locked) (e : ExecutorId) (x : Executor) : Holder → Option Locked
  | .loop l => loopLine s e x l
  | .enter l => some (enterLine s e x l)
  | .done l => some (doneLine s e x l)
  | .submit i l => submitLine s e x i l

/-- The steps that take no lock. -/
def Action.lockFree : Action → Bool
  | .create .. | .resolve _ | .run _ | .complete .. | .submit .. | .cancel _ => true
  | .enter .. | .done _ | .loop _ | .walk _ => false

/-- The steps of the threads, one line at a time inside the blocks. -/
inductive Move where
  /-- A step that takes no lock. -/
  | free (a : Action)
  /-- `run_until_future` on thread `t`: the thread check and `add_done_callback`, which takes the lock for `done`
  if the future is done. -/
  | enter (e : ExecutorId) (t : ThreadId)
  /-- The future runs the callback `done`, which takes the lock. -/
  | callback (e : ExecutorId)
  /-- The work thread takes the lock: at the top of its loop, or again inside `wait()`. -/
  | lock (e : ExecutorId)
  /-- The submitter of `i` takes the lock of the executor it has come to. -/
  | take (i : ItemId)
  /-- The thread that holds the lock of `e` executes a line. -/
  | line (e : ExecutorId)
  deriving DecidableEq

def Locked.step (s : Locked) : Move → Option Locked
  | .free a => if a.lockFree then (CurrentThreadExecutor.step s.base a).map fun b => ⟨b, s.holder⟩ else none
  | .enter e t => do
    let x ← s.base.execs e
    if x.pc ≠ .notEntered then none
    else if t ≠ x.workThread then some s
    else if x.awaitedDone then
      if s.holder e = none then some (s.put e x (some (.enter .set))) else none
    else some (s.put e { x with registered := true, pc := .locking } (s.holder e))
  | .callback e => do
    let x ← s.base.execs e
    if x.awaitedDone ∧ x.registered ∧ s.holder e = none then some (s.put e x (some (.done .set))) else none
  | .lock e => do
    let x ← s.base.execs e
    if (x.pc = .locking ∨ x.pc = .waiting true) ∧ s.holder e = none then
      some (s.put e x (some (.loop .testItems)))
    else none
  | .take i => do
    let it ← s.base.items i
    match it.place with
    | .walking e => do
      let x ← s.base.execs e
      if s.holder e = none then some (s.put e x (some (.submit i .test))) else none
    | _ => none
  | .line e => do
    let x ← s.base.execs e
    let h ← s.holder e
    s.line e x h

theorem Locked.step_line {s : Locked} {e : ExecutorId} {x : Executor} {h : Holder} (hx : s.base.execs e = some x)
    (hh : s.holder e = some h) : s.step (.line e) = s.line e x h := by
  simp only [Locked.step, hx, hh, Option.bind_eq_bind, Option.bind_some]

/-- The executors and their submitters, line by line. -/
def locked : Machine Locked Move := ⟨Locked.step⟩

end Asgiref.CurrentThreadExecutor
