import Asgiref.Lib.Machine
import Asgiref.Python.Future
import Mathlib.Logic.Function.Basic

/-!
# `CurrentThreadExecutor`

The executors, the work items and every step that touches them, as one machine:

* `State` — the executors that exist (linked by `_old_executor`) and the work items created by `submit`;
* `Action` — the lock-protected blocks of `run_until_future`, `done` and `submit` are one action each (the
  block holds `_work_ready` from its first line to its last; `Refinement` has them line by line), and so are the
  parts of `_WorkItem.run` before, and after, the call of `fn`;
* `step`, `machine` — who may do what, and what it does.

No stack discipline is imposed on the loops that run on one thread: the machine has every interleaving the
threads can produce, and more.
-/

namespace Asgiref.CurrentThreadExecutor

open Asgiref.Python Asgiref.Lib

abbrev ExecutorId := Nat
abbrev ItemId := Nat

/-- Where the work thread is in `run_until_future`. -/
inductive LoopPc where
  /-- `run_until_future` has not been called. -/
  | notEntered
  /-- At the top of `while True`, about to take `_work_ready`. -/
  | locking
  /-- Inside `_work_ready.wait()`. -/
  | waiting (notified : Bool)
  /-- The lock is released and `work_item.run()` is about to test the future. -/
  | popped (i : ItemId)
  /-- Inside `self.fn(*self.args, **self.kwargs)`. -/
  | calling (i : ItemId)
  | returned
  /-- An exception has left `run_until_future`. -/
  | escaped (e : Exn)
  deriving DecidableEq

/-- The item the work thread holds in its hands. -/
def LoopPc.item? : LoopPc → Option ItemId
  | .popped i | .calling i => some i
  | _ => none

structure Executor where
  /-- `_work_thread` -/
  workThread : ThreadId
  /-- `_old_executor` -/
  oldExecutor : Option ExecutorId
  /-- `_work_items` -/
  workItems : List ItemId := []
  /-- `_broken` -/
  broken : Bool := false
  pc : LoopPc := .notEntered
  /-- The future that `run_until_future` waits for is done. -/
  awaitedDone : Bool := false
  /-- The callback `done` is in the list of that future. -/
  registered : Bool := false
  /-- History: every item appended to `_work_items`, in order. -/
  appended : List ItemId := []
  /-- History: every item taken out by `popleft`, in order. -/
  taken : List ItemId := []

/-- `_work_ready.notify()`: wakes the work thread if it is waiting, and is lost otherwise. -/
def Executor.notify (x : Executor) : Executor :=
  match x.pc with
  | .waiting _ => { x with pc := .waiting true }
  | _ => x

theorem notify_pc (x : Executor) : x.notify.pc = x.pc ∨ ∃ b, x.pc = .waiting b ∧ x.notify.pc = .waiting true := by
  unfold Executor.notify
  split
  · rename_i b hb; exact Or.inr ⟨b, hb, rfl⟩
  · exact Or.inl rfl

theorem notify_eq (x : Executor) : x.notify = { x with pc := x.notify.pc } := by
  unfold Executor.notify
  split <;> rfl

/-- The callback `done` of `run_until_future`. -/
def Executor.done (x : Executor) : Executor := { x with broken := true }.notify

/-- `executor._work_items.append(work_item); executor._work_ready.notify()` -/
def Executor.append (x : Executor) (i : ItemId) : Executor :=
  { x with workItems := x.workItems ++ [i], appended := x.appended ++ [i] }.notify

/-- Where a work item is.  A submitter carries it up the chain until an executor accepts it. -/
inductive Place where
  | walking (e : ExecutorId)
  | rejected
  | queued (e : ExecutorId)
  | popped (e : ExecutorId)
  | calling (e : ExecutorId)
  | finished
  deriving DecidableEq

/-- A `_WorkItem`, with the thread that submitted it and the number of times its function was called. -/
structure WorkItem where
  submitter : ThreadId
  place : Place
  future : Future Unit := .pending
  calls : Nat := 0

structure State where
  execs : ExecutorId → Option Executor
  items : ItemId → Option WorkItem

namespace State

variable (s : State)

/-- No executor and no work item exist yet. -/
def init : State := ⟨fun _ => none, fun _ => none⟩

def setExec (e : ExecutorId) (x : Executor) : State :=
  { s with execs := Function.update s.execs e (some x) }

def setItem (i : ItemId) (it : WorkItem) : State :=
  { s with items := Function.update s.items i (some it) }

/-- The place of an item. -/
def placeOf (i : ItemId) : Option Place := (s.items i).map WorkItem.place

theorem placeOf_of_items {s : State} {i : ItemId} {it : WorkItem} (h : s.items i = some it) :
    s.placeOf i = some it.place := by
  rw [placeOf, h]
  rfl

theorem place_eq {s : State} {i : ItemId} {it : WorkItem} {p : Place} (h : s.items i = some it)
    (hp : s.placeOf i = some p) : it.place = p :=
  Option.some.inj ((placeOf_of_items h).symm.trans hp)

@[simp] theorem execs_setItem (i : ItemId) (it : WorkItem) : (s.setItem i it).execs = s.execs := rfl
@[simp] theorem items_setExec (e : ExecutorId) (x : Executor) : (s.setExec e x).items = s.items := rfl

@[simp] theorem execs_setExec (e f : ExecutorId) (x : Executor) :
    (s.setExec e x).execs f = if f = e then some x else s.execs f := by
  simp only [setExec, Function.update_apply]

@[simp] theorem items_setItem (i j : ItemId) (it : WorkItem) :
    (s.setItem i it).items j = if j = i then some it else s.items j := by
  simp only [setItem, Function.update_apply]

@[simp] theorem placeOf_setExec (e : ExecutorId) (x : Executor) : (s.setExec e x).placeOf = s.placeOf := rfl

@[simp] theorem placeOf_setItem (i j : ItemId) (it : WorkItem) :
    (s.setItem i it).placeOf j = if j = i then some it.place else s.placeOf j := by
  unfold placeOf
  rw [items_setItem]
  split <;> rfl

/-- A step that changes an executor and an item. -/
theorem placeOf_move (e : ExecutorId) (x : Executor) (i j : ItemId) (it : WorkItem) :
    ((s.setExec e x).setItem i it).placeOf j = if j = i then some it.place else s.placeOf j := by
  rw [placeOf_setItem, placeOf_setExec]

end State

/-- The steps of the threads. -/
inductive Action where
  /-- `CurrentThreadExecutor(old)` on thread `t`. -/
  | create (e : ExecutorId) (t : ThreadId) (old : Option ExecutorId)
  /-- `run_until_future` on thread `t`: the thread check and `add_done_callback`. -/
  | enter (e : ExecutorId) (t : ThreadId)
  /-- The awaited future is resolved. -/
  | resolve (e : ExecutorId)
  /-- The future runs the callback `done`. -/
  | done (e : ExecutorId)
  /-- The `with self._work_ready` block of the loop, up to `wait()`, `break` or the release of the lock. -/
  | loop (e : ExecutorId)
  /-- `work_item.run()` up to the call of `fn`. -/
  | run (e : ExecutorId)
  /-- `fn` returns or raises `r`. -/
  | complete (e : ExecutorId) (r : Result Unit)
  /-- `submit` on executor `e` from thread `t`, up to the walk. -/
  | submit (i : ItemId) (t : ThreadId) (e : ExecutorId)
  /-- One turn of the walk: the `with executor._work_ready` block and the step to `_old_executor`. -/
  | walk (i : ItemId)
  /-- `cancel()` on the future of an item. -/
  | cancel (i : ItemId)
  deriving DecidableEq

/-- `_WorkItem.run` up to the call of `fn`, for the item `i` taken from `e`. -/
def runItem (s : State) (e : ExecutorId) (x : Executor) (i : ItemId) (it : WorkItem) : State :=
  match it.future.setRunningOrNotifyCancel with
  | .error ex => s.setExec e { x with pc := .escaped ex }
  | .ok (f, false) => (s.setExec e { x with pc := .locking }).setItem i { it with place := .finished, future := f }
  | .ok (f, true) =>
    (s.setExec e { x with pc := .calling i }).setItem i
      { it with place := .calling e, future := f, calls := it.calls + 1 }

/-- `_WorkItem.run` after `fn` has returned or raised `r`. -/
def completeItem (s : State) (e : ExecutorId) (x : Executor) (i : ItemId) (it : WorkItem) (r : Result Unit) :
    State :=
  match it.future.settle r with
  | .error ex => s.setExec e { x with pc := .escaped ex }
  | .ok f => (s.setExec e { x with pc := .locking }).setItem i { it with place := .finished, future := f }

/-- The `with self._work_ready` block of `run_until_future`. -/
def loopBlock (s : State) (e : ExecutorId) (x : Executor) : Option State :=
  match x.workItems with
  | [] => if x.broken then some (s.setExec e { x with pc := .returned })
          else some (s.setExec e { x with pc := .waiting false })
  | i :: rest =>
    (s.items i).map fun it =>
      (s.setExec e { x with workItems := rest, pc := .popped i, taken := x.taken ++ [i] }).setItem i
        { it with place := .popped e }

/-- One turn of the `while True` loop of `submit`. -/
def walkBlock (s : State) (e : ExecutorId) (x : Executor) (i : ItemId) (it : WorkItem) : State :=
  if x.broken then
    match x.oldExecutor with
    | none => s.setItem i { it with place := .rejected }
    | some o => s.setItem i { it with place := .walking o }
  else (s.setExec e (x.append i)).setItem i { it with place := .queued e }

def step (s : State) : Action → Option State
  | .create e t old =>
    if (s.execs e).isNone ∧ ∀ o ∈ old, (s.execs o).isSome then
      some (s.setExec e { workThread := t, oldExecutor := old })
    else none
  | .enter e t => do
    let x ← s.execs e
    if x.pc ≠ .notEntered then none
    else if t ≠ x.workThread then some s
    else if x.awaitedDone then some (s.setExec e { x with broken := true, pc := .locking })
    else some (s.setExec e { x with registered := true, pc := .locking })
  | .resolve e => do
    let x ← s.execs e
    some (s.setExec e { x with awaitedDone := true })
  | .done e => do
    let x ← s.execs e
    if x.awaitedDone ∧ x.registered then some (s.setExec e { x.done with registered := false }) else none
  | .loop e => do
    let x ← s.execs e
    if x.pc = .locking ∨ x.pc = .waiting true then loopBlock s e x else none
  | .run e => do
    let x ← s.execs e
    match x.pc with
    | .popped i => (s.items i).map (runItem s e x i)
    | _ => none
  | .complete e r => do
    let x ← s.execs e
    match x.pc with
    | .calling i => (s.items i).map fun it => completeItem s e x i it r
    | _ => none
  | .submit i t e => do
    let x ← s.execs e
    if (s.items i).isSome then none
    else if t = x.workThread then some s
    else some (s.setItem i { submitter := t, place := .walking e })
  | .walk i => do
    let it ← s.items i
    match it.place with
    | .walking e => (s.execs e).map fun x => walkBlock s e x i it
    | _ => none
  | .cancel i => do
    let it ← s.items i
    some (s.setItem i { it with future := it.future.cancel })

/-- The executors and their submitters. -/
def machine : Machine State Action := ⟨step⟩

/-! ### What a step can do -/

/-- The steps of the machine, one constructor for each path through the code. -/
inductive StepTo (s : State) : Action → State → Prop where
  | create {e t old} : s.execs e = none → (∀ o, old = some o → (s.execs o).isSome) →
      StepTo s (.create e t old) (s.setExec e { workThread := t, oldExecutor := old })
  | enterRefused {e t x} : s.execs e = some x → t ≠ x.workThread → StepTo s (.enter e t) s
  | enterDone {e t x} : s.execs e = some x → x.pc = .notEntered → x.awaitedDone = true →
      StepTo s (.enter e t) (s.setExec e { x with broken := true, pc := .locking })
  | enter {e t x} : s.execs e = some x → x.pc = .notEntered → x.awaitedDone = false →
      StepTo s (.enter e t) (s.setExec e { x with registered := true, pc := .locking })
  | resolve {e x} : s.execs e = some x → StepTo s (.resolve e) (s.setExec e { x with awaitedDone := true })
  | done {e x} : s.execs e = some x → x.awaitedDone = true → x.registered = true →
      StepTo s (.done e) (s.setExec e { x.done with registered := false })
  | loopReturn {e x} : s.execs e = some x → x.pc = .locking ∨ x.pc = .waiting true → x.workItems = [] →
      x.broken = true → StepTo s (.loop e) (s.setExec e { x with pc := .returned })
  | loopWait {e x} : s.execs e = some x → x.pc = .locking ∨ x.pc = .waiting true → x.workItems = [] →
      x.broken = false → StepTo s (.loop e) (s.setExec e { x with pc := .waiting false })
  | loopPop {e x i rest it} : s.execs e = some x → x.pc = .locking ∨ x.pc = .waiting true →
      x.workItems = i :: rest → s.items i = some it →
      StepTo s (.loop e)
        ((s.setExec e { x with workItems := rest, pc := .popped i, taken := x.taken ++ [i] }).setItem i
          { it with place := .popped e })
  | run {e x i it} : s.execs e = some x → x.pc = .popped i → s.items i = some it →
      StepTo s (.run e) (runItem s e x i it)
  | complete {e x i it r} : s.execs e = some x → x.pc = .calling i → s.items i = some it →
      StepTo s (.complete e r) (completeItem s e x i it r)
  | submitRefused {i t e x} : s.execs e = some x → t = x.workThread → StepTo s (.submit i t e) s
  | submit {i t e x} : s.execs e = some x → s.items i = none → t ≠ x.workThread →
      StepTo s (.submit i t e) (s.setItem i { submitter := t, place := .walking e })
  | walkRejected {i e x it} : s.items i = some it → it.place = .walking e → s.execs e = some x →
      x.broken = true → x.oldExecutor = none → StepTo s (.walk i) (s.setItem i { it with place := .rejected })
  | walkUp {i e x it o} : s.items i = some it → it.place = .walking e → s.execs e = some x →
      x.broken = true → x.oldExecutor = some o →
      StepTo s (.walk i) (s.setItem i { it with place := .walking o })
  | walkAppend {i e x it} : s.items i = some it → it.place = .walking e → s.execs e = some x →
      x.broken = false → StepTo s (.walk i) ((s.setExec e (x.append i)).setItem i { it with place := .queued e })
  | cancel {i it} : s.items i = some it →
      StepTo s (.cancel i) (s.setItem i { it with future := it.future.cancel })

theorem stepTo_of_step {s s' : State} {a : Action} (h : step s a = some s') : StepTo s a s' := by
  cases a with
  | create e t old =>
    simp only [step, Option.ite_none_right_eq_some, Option.some.injEq] at h
    obtain ⟨⟨hnone, hold⟩, rfl⟩ := h
    exact .create (Option.isNone_iff_eq_none.1 hnone) fun o ho => hold o ho
  | enter e t =>
    simp only [step, Option.bind_eq_bind, Option.bind_eq_some_iff] at h
    obtain ⟨x, hx, h⟩ := h
    split at h
    · cases h
    · rename_i hpc
      have hpc : x.pc = .notEntered := by simpa using hpc
      split at h
      · cases h; exact .enterRefused hx ‹_›
      · split at h <;> cases h
        · exact .enterDone hx hpc ‹_›
        · exact .enter hx hpc (by simpa using ‹¬ x.awaitedDone = true›)
  | resolve e =>
    simp only [step, Option.bind_eq_bind, Option.bind_eq_some_iff, Option.some.injEq] at h
    obtain ⟨x, hx, rfl⟩ := h
    exact .resolve hx
  | done e =>
    simp only [step, Option.bind_eq_bind, Option.bind_eq_some_iff, Option.ite_none_right_eq_some,
      Option.some.injEq] at h
    obtain ⟨x, hx, ⟨ha, hr⟩, rfl⟩ := h
    exact .done hx ha hr
  | loop e =>
    simp only [step, Option.bind_eq_bind, Option.bind_eq_some_iff, Option.ite_none_right_eq_some] at h
    obtain ⟨x, hx, hpc, h⟩ := h
    unfold loopBlock at h
    split at h
    · split at h <;> cases h
      · exact .loopReturn hx hpc ‹_› ‹_›
      · exact .loopWait hx hpc ‹_› (by simpa using ‹¬ x.broken = true›)
    · obtain ⟨it, hit, rfl⟩ := Option.map_eq_some_iff.1 h
      exact .loopPop hx hpc ‹_› hit
  | run e =>
    simp only [step, Option.bind_eq_bind, Option.bind_eq_some_iff] at h
    obtain ⟨x, hx, h⟩ := h
    split at h
    · obtain ⟨it, hit, rfl⟩ := Option.map_eq_some_iff.1 h
      exact .run hx ‹_› hit
    · cases h
  | complete e r =>
    simp only [step, Option.bind_eq_bind, Option.bind_eq_some_iff] at h
    obtain ⟨x, hx, h⟩ := h
    split at h
    · obtain ⟨it, hit, rfl⟩ := Option.map_eq_some_iff.1 h
      exact .complete hx ‹_› hit
    · cases h
  | submit i t e =>
    simp only [step, Option.bind_eq_bind, Option.bind_eq_some_iff] at h
    obtain ⟨x, hx, h⟩ := h
    split at h
    · cases h
    · split at h <;> cases h
      · exact .submitRefused hx ‹_›
      · exact .submit hx (by simpa using ‹¬ (s.items i).isSome = true›) ‹_›
  | walk i =>
    simp only [step, Option.bind_eq_bind, Option.bind_eq_some_iff] at h
    obtain ⟨it, hit, h⟩ := h
    split at h
    · obtain ⟨x, hx, rfl⟩ := Option.map_eq_some_iff.1 h
      unfold walkBlock
      split
      · split
        · exact .walkRejected hit ‹_› hx ‹_› ‹_›
        · exact .walkUp hit ‹_› hx ‹_› ‹_›
      · exact .walkAppend hit ‹_› hx (by simpa using ‹¬ x.broken = true›)
    · cases h
  | cancel i =>
    simp only [step, Option.bind_eq_bind, Option.bind_eq_some_iff, Option.some.injEq] at h
    obtain ⟨it, hit, rfl⟩ := h
    exact .cancel hit

/-! ### Steps that can be taken -/

section Enabled

variable {s : State} {e : ExecutorId} {x : Executor} {i : ItemId} {it : WorkItem} {t : ThreadId}

theorem step_create {old : Option ExecutorId} (he : (s.execs e).isNone) (hold : ∀ o ∈ old, (s.execs o).isSome) :
    step s (.create e t old) = some (s.setExec e { workThread := t, oldExecutor := old }) :=
  if_pos ⟨he, hold⟩

theorem step_enterDone (hx : s.execs e = some x) (hpc : x.pc = .notEntered) (ha : x.awaitedDone = true) :
    step s (.enter e x.workThread) = some (s.setExec e { x with broken := true, pc := .locking }) := by
  simp [step, hx, hpc, ha]

theorem step_enter (hx : s.execs e = some x) (hpc : x.pc = .notEntered) (ha : x.awaitedDone = false)
    (ht : t = x.workThread) :
    step s (.enter e t) = some (s.setExec e { x with registered := true, pc := .locking }) := by
  simp [step, hx, hpc, ha, ht]

theorem step_resolve (hx : s.execs e = some x) :
    step s (.resolve e) = some (s.setExec e { x with awaitedDone := true }) := by
  simp [step, hx]

theorem step_done (hx : s.execs e = some x) (ha : x.awaitedDone = true) (hr : x.registered = true) :
    step s (.done e) = some (s.setExec e { x.done with registered := false }) := by
  simp [step, hx, ha, hr]

theorem step_loop (hx : s.execs e = some x) (hpc : x.pc = .locking ∨ x.pc = .waiting true) :
    step s (.loop e) = loopBlock s e x := by
  simp [step, hx, hpc]

theorem loopBlock_wait (hq : x.workItems = []) (hb : x.broken = false) :
    loopBlock s e x = some (s.setExec e { x with pc := .waiting false }) := by
  simp [loopBlock, hq, hb]

theorem loopBlock_quit (hq : x.workItems = []) (hb : x.broken = true) :
    loopBlock s e x = some (s.setExec e { x with pc := .returned }) := by
  simp [loopBlock, hq, hb]

theorem loopBlock_pop {rest : List ItemId} (hq : x.workItems = i :: rest) (hit : s.items i = some it) :
    loopBlock s e x =
      some ((s.setExec e { x with workItems := rest, pc := .popped i, taken := x.taken ++ [i] }).setItem i
        { it with place := .popped e }) := by
  simp [loopBlock, hq, hit]

theorem step_run (hx : s.execs e = some x) (hpc : x.pc = .popped i) (hit : s.items i = some it) :
    step s (.run e) = some (runItem s e x i it) := by
  simp [step, hx, hpc, hit]

theorem step_complete {r : Result Unit} (hx : s.execs e = some x) (hpc : x.pc = .calling i)
    (hit : s.items i = some it) : step s (.complete e r) = some (completeItem s e x i it r) := by
  simp [step, hx, hpc, hit]

theorem step_submit (hx : s.execs e = some x) (hi : s.items i = none) :
    step s (.submit i t e) =
      some (if t = x.workThread then s else s.setItem i { submitter := t, place := .walking e }) := by
  by_cases ht : t = x.workThread <;> simp [step, hx, hi, ht]

theorem items_of_submit {s' : State} (h : step s (.submit i t e) = some s') : s.items i = none := by
  simp only [step, Option.bind_eq_bind, Option.bind_eq_some_iff] at h
  obtain ⟨x, -, h⟩ := h
  cases hi : s.items i with
  | none => rfl
  | some it =>
    rw [hi] at h
    cases h

theorem step_walk (hit : s.items i = some it) (hp : it.place = .walking e) (hx : s.execs e = some x) :
    step s (.walk i) = some (walkBlock s e x i it) := by
  simp [step, hit, hp, hx]

theorem walkBlock_append (hb : x.broken = false) :
    walkBlock s e x i it = (s.setExec e (x.append i)).setItem i { it with place := .queued e } := by
  simp [walkBlock, hb]

theorem walkBlock_next (hb : x.broken = true) :
    walkBlock s e x i it = s.setItem i { it with place := x.oldExecutor.elim .rejected .walking } := by
  rw [walkBlock, if_pos hb]
  cases x.oldExecutor <;> rfl

theorem step_cancel (hit : s.items i = some it) :
    step s (.cancel i) = some (s.setItem i { it with future := it.future.cancel }) := by
  simp [step, hit]

end Enabled

end Asgiref.CurrentThreadExecutor
