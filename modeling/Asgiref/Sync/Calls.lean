import Asgiref.CurrentThreadExecutor.Model
import Asgiref.Sync.ChooseExecutor

/-!
# Trees of `AsyncToSync` and `SyncToAsync` calls

All the code that is reached from one body by wrapped calls, by tasks it creates and by event loops its functions
run, as one machine.  A body is the code of a function or of a coroutine, with the thread it runs on and its context.

* `Body`, `State` — the bodies, the `CurrentThreadExecutor`s, the table `loop_thread_executors`, and what the worker of
  `single_thread_executor` executes;
* `callSync`, `resumeSync` — `SyncToAsync.__call__` up to the hand-over, and its `finally`;
* `callAsync`, `resumeAsync` — `AsyncToSync.__call__` up to the wait, and its `finally`;
* `step`, `machine` — every interleaving the threads can produce, and more: which loop and which thread a call goes
  to, and when a wait ends, is left to the environment.
-/

namespace Asgiref.Sync.Calls

open Asgiref.Python Asgiref.Lib

abbrev BodyId := Nat
abbrev LoopId := Nat

/-- The code of a function that was handed to an executor, or of a coroutine on a loop. -/
inductive Kind where
  | function (x : Executor) (ownContext : Bool)
  | task (l : LoopId)
  deriving DecidableEq

inductive Phase (U : Type) where
  /-- Handed to an executor and not started. -/
  | queued
  | running
  /-- Awaits the function `j` in `SyncToAsync.__call__`. -/
  | awaiting (j : BodyId)
  /-- Waits for the coroutine `k` in `AsyncToSync.__call__`, with the variables `old_executor` and `context[0]`. -/
  | blocked (k : BodyId) (oldExecutor : Option Nat) (context : Context U)
  | ended
  /-- Never run. -/
  | dropped

def Phase.isRunning {U : Type} : Phase U → Bool
  | .running => true
  | _ => false

/-- History: the function, executed by the single worker, from whose context a context descends, and whether its
call was thread-sensitive without a context of its own. -/
structure Origin where
  root : BodyId
  plain : Bool
  deriving DecidableEq

structure Body (U : Type) where
  kind : Kind
  /-- Of a function that is queued, the thread of its caller. -/
  thread : ThreadId
  ctx : Context U
  phase : Phase U
  origin : Option Origin
  /-- History: a `SyncToAsync` call has ended in this context, or in one it was copied from or was handed. -/
  reset : Bool
  /-- History: for each `AsyncToSync` call that has ended, the executor visible before it and after it. -/
  returns : List (Option Nat × Option Nat)

structure State (U : Type) where
  bodies : BodyId → Option (Body U)
  execs : CurrentThreadExecutor.State
  /-- `AsyncToSync.loop_thread_executors` -/
  loopExecutors : LoopId → Option Nat
  /-- The function that the worker of `single_thread_executor` is executing. -/
  busy : Option BodyId

namespace State

variable {U : Type} (s : State U)

def setBody (i : BodyId) (b : Body U) : State U := { s with bodies := Function.update s.bodies i (some b) }

@[simp] theorem bodies_setBody (i j : BodyId) (b : Body U) :
    (s.setBody i b).bodies j = if j = i then some b else s.bodies j := by
  simp only [setBody, Function.update_apply]

variable {s} in
theorem bodies_setBody_of_ne {i j : BodyId} {b y : Body U} (hij : i ≠ j) (hi : s.bodies i = some b) :
    (s.setBody j y).bodies i = some b := by
  rw [bodies_setBody, if_neg hij]
  exact hi

variable {s} in
theorem ne_of_eq_none {i j : BodyId} {b : Body U} (hi : s.bodies i = some b) (hj : s.bodies j = none) : i ≠ j := by
  rintro rfl
  rw [hi] at hj
  cases hj

variable {s} in
theorem ne_of_phase {i j : BodyId} {b y : Body U} (hi : s.bodies i = some b) (hj : s.bodies j = some y)
    (h : b.phase ≠ y.phase) : i ≠ j := by
  rintro rfl
  cases hi.symm.trans hj
  exact h rfl

/-- One running body and no executor. -/
def init (kind : Kind) (t : ThreadId) (c : Context U) : State U where
  bodies := Function.update (fun _ => none) 0 (some ⟨kind, t, c, .running, none, false, []⟩)
  execs := CurrentThreadExecutor.State.init
  loopExecutors := fun _ => none
  busy := none

end State

/-- What a body does to its context by itself. -/
inductive UserOp (U : Type) where
  | setVar (x : Nat) (v : U)
  | setAttr (n : Nat) (key : Local.Name) (v : U)
  | delAttr (n : Nat) (key : Local.Name)
  /-- `ThreadSensitiveContext.__aenter__` -/
  | enter (m : Nat)
  /-- `ThreadSensitiveContext.__aexit__` -/
  | exit (m : Nat)

/-- The context a task of an `AsyncToSync` call has before `main_wrap` runs in it. -/
inductive Base where
  /-- A copy of the caller's: the task goes to a parent loop. -/
  | caller
  /-- That of the thread that runs a new loop, empty. -/
  | empty
  /-- That of the thread that runs a new loop, a copy of that of other code. -/
  | inherited (m : BodyId)
  deriving DecidableEq

inductive Action (U : Type) where
  | user (i : BodyId) (op : UserOp U)
  /-- The coroutine `i` creates the task `j`. -/
  | createTask (i j : BodyId)
  /-- The function `i` runs the fresh loop `l` on its thread, with the task `j`. -/
  | driveLoop (i j : BodyId) (l : LoopId)
  /-- The coroutine `i` calls `SyncToAsync` with the function `j`; `own` is the context passed to it. -/
  | callSync (i j : BodyId) (threadSensitive : Bool) (given : Executor) (own : Option (Context U))
  /-- The executor has refused the function that `i` wants to await. -/
  | refuse (i : BodyId)
  /-- The thread `t` of a pool starts the function `j`. -/
  | start (j : BodyId) (t : ThreadId)
  /-- The future of the queued function `j` of a pool was cancelled. -/
  | drop (j : BodyId)
  /-- A step of the `CurrentThreadExecutor`s other than to create one, to submit an item or to run one. -/
  | exec (a : CurrentThreadExecutor.Action)
  /-- The work thread of the executor `e` runs the item it has popped. -/
  | startItem (e : Nat)
  /-- The body returns or raises. -/
  | endBody (i : BodyId)
  /-- The `finally` block of the `SyncToAsync` call of `i`, which may have been cancelled. -/
  | resumeSync (i : BodyId)
  /-- The function `i` calls `AsyncToSync` with the coroutine `k`, which goes to the loop `l` on the thread `t`. -/
  | callAsync (i k : BodyId) (e : Nat) (l : LoopId) (t : ThreadId) (base : Base)
  /-- The `finally` block of the `AsyncToSync` call of `i`; `stored` says whether `main_wrap` has ended and replaced
  `context[0]`. -/
  | resumeAsync (i : BodyId) (stored : Bool)
  /-- `del self.loop_thread_executors[loop]` -/
  | closeLoop (l : LoopId)

section

variable {U : Type}

def UserOp.apply (t : ThreadId) (c : Context U) : UserOp U → Context U
  | .setVar x v => AList.insert (Var.user x) v c
  | .setAttr n key v => c.setattr t (.user n) key v
  | .delAttr n key =>
    match c.delattr t (.user n) key with
    | .ok c' => c'
    | .error _ => c
  | .enter m =>
    match c.sensitiveContext with
    | some _ => c
    | none => AList.insert Var.threadSensitiveContext m c
  | .exit m => if c.sensitiveContext = some m then AList.erase Var.threadSensitiveContext c else c

variable (vars : UserVars U)

/-- A function `j` whose context is `context` comes to run on the thread `t`: `run_child`. -/
def runChild (b : Body U) (t : ThreadId) : Body U :=
  match restoreContext vars t b.ctx b.ctx with
  | (c, none) => { b with thread := t, ctx := c, phase := .running }
  | (c, some _) => { b with ctx := c, phase := .dropped }

/-- The function of a `SyncToAsync` call by `b`, whose context is `c` by now. -/
def child (b : Body U) (c : Context U) (j : BodyId) (threadSensitive : Bool) (x : Executor) (own : Option (Context U)) :
    Body U where
  kind := .function x own.isSome
  thread := b.thread
  ctx := own.getD c
  phase := .queued
  origin :=
    if x = .singleThread then some ⟨j, threadSensitive && own.isNone⟩
    else if own.isSome then none else b.origin
  reset := if x = .singleThread then false else b.reset
  returns := []

/-- `SyncToAsync.__call__` up to `run_in_executor`. -/
def callSync (s : State U) (i : BodyId) (b : Body U) (l : LoopId) (j : BodyId) (threadSensitive : Bool)
    (given : Executor) (own : Option (Context U)) : Option (State U) :=
  match chooseExecutor ⟨threadSensitive, given, s.loopExecutors l⟩ b.thread b.ctx with
  | .error _ => some s
  | .ok (x, c) =>
    let s' := (s.setBody j (child b c j threadSensitive x own)).setBody i { b with ctx := c, phase := .awaiting j }
    match x with
    | .currentThread e => do
      let execs ← CurrentThreadExecutor.step s.execs (.submit j b.thread e)
      if (execs.items j).isNone then some s else some { s' with execs := execs }
    | _ => some s'

/-- The `finally` block of `SyncToAsync.__call__` in the coroutine `b`, for the function `y`. -/
def resumeSync (b y : Body U) (ownContext : Bool) : Body U :=
  match if ownContext then (b.ctx, none) else restoreContext vars b.thread y.ctx b.ctx with
  | (c, none) => { b with ctx := c.setDeadlock false, phase := .running, reset := true }
  | (c, some _) => { b with ctx := c, phase := .running, reset := true }

/-- The context of a task before `main_wrap` runs in it. -/
def Base.context (s : State U) (context : Context U) : Base → Option (Context U)
  | .caller => some context
  | .empty => some ∅
  | .inherited m => (s.bodies m).map Body.ctx

/-- The coroutine of an `AsyncToSync` call, after `_restore_context` in `main_wrap`. -/
def coroutine (b : Body U) (context base : Context U) (l : LoopId) (t : ThreadId) : Body U where
  kind := .task l
  thread := t
  ctx := (restoreContext vars t context base).1
  phase := if (restoreContext vars t context base).2.isNone then .running else .dropped
  origin := b.origin
  reset := b.reset
  returns := []

/-- `AsyncToSync.__call__` up to `run_until_future`. -/
def callAsync (s : State U) (i : BodyId) (b : Body U) (k : BodyId) (e : Nat) (l : LoopId) (t : ThreadId)
    (base : Base) : Option (State U) := do
  let oldExecutor := b.ctx.currentExecutor b.thread
  let execs ← CurrentThreadExecutor.step s.execs (.create e b.thread oldExecutor)
  let context := b.ctx.setCurrentExecutor b.thread (some e)
  let c ← base.context s context
  let s' := (s.setBody k (coroutine vars b context c l t)).setBody i
    { b with ctx := context, phase := .blocked k oldExecutor context }
  some { s' with
    execs := execs
    loopExecutors := if base = .caller then s.loopExecutors else Function.update s.loopExecutors l (some e) }

/-- The `finally` block of `AsyncToSync.__call__` in the function `b`, where `context[0]` is `context`. -/
def resumeAsync (b : Body U) (oldExecutor : Option Nat) (context : Context U) : Body U :=
  let ctx :=
    match restoreContext vars b.thread context b.ctx with
    | (c, none) => c.setCurrentExecutor b.thread oldExecutor
    | (c, some _) => c
  { b with ctx := ctx, phase := .running, returns := b.returns ++ [(oldExecutor, ctx.currentExecutor b.thread)] }

/-- The item of the function is with an executor. -/
def submitted (s : State U) (j : BodyId) : Bool :=
  match s.execs.placeOf j with
  | some (.walking _) | some .rejected => false
  | _ => true

/-- The executor has turned the function down: the walk found none that runs, or the pool was shut down. -/
def refused (s : State U) (j : BodyId) (y : Body U) : Bool :=
  match y.kind with
  | .function (.currentThread _) _ => s.execs.placeOf j = some .rejected
  | _ => true

/-- The function `j` is started by its pool. -/
def start (worker : ThreadId) (s : State U) (j : BodyId) (y : Body U) (t : ThreadId) : Option (State U) :=
  match y.kind with
  | .function .singleThread _ =>
    if s.busy.isNone then
      let y' := runChild vars y worker
      some { s.setBody j y' with busy := if y'.phase.isRunning then some j else none }
    else none
  | .function (.currentThread _) _ | .task _ => none
  | .function _ _ => some (s.setBody j (runChild vars y t))

/-- The steps of `CurrentThreadExecutor`s that are not part of another action. -/
def internal : CurrentThreadExecutor.Action → Bool
  | .create .. | .submit .. | .run .. => false
  | _ => true

variable (worker : ThreadId)

def step (s : State U) : Action U → Option (State U)
  | .user i op => do
    let b ← s.bodies i
    match b.phase with
    | .running => some (s.setBody i { b with ctx := op.apply b.thread b.ctx })
    | _ => none
  | .createTask i j => do
    let b ← s.bodies i
    match b.phase, b.kind with
    | .running, .task _ => if (s.bodies j).isNone then some (s.setBody j { b with returns := [] }) else none
    | _, _ => none
  | .driveLoop i j l => do
    let b ← s.bodies i
    match b.phase, b.kind with
    | .running, .function _ _ =>
      if (s.bodies j).isNone then some (s.setBody j { b with kind := .task l, returns := [] }) else none
    | _, _ => none
  | .callSync i j threadSensitive given own => do
    let b ← s.bodies i
    match b.phase, b.kind with
    | .running, .task l =>
      if (s.bodies j).isNone then callSync s i b l j threadSensitive given own else none
    | _, _ => none
  | .refuse i => do
    let b ← s.bodies i
    match b.phase with
    | .awaiting j => do
      let y ← s.bodies j
      match y.phase with
      | .queued =>
        if refused s j y then
          some ((s.setBody j { y with phase := .dropped }).setBody i { b with phase := .running })
        else none
      | _ => none
    | _ => none
  | .start j t => do
    let y ← s.bodies j
    match y.phase with
    | .queued => start vars worker s j y t
    | _ => none
  | .drop j => do
    let y ← s.bodies j
    match y.phase, y.kind with
    | .queued, .function (.currentThread _) _ => none
    | .queued, _ => some (s.setBody j { y with phase := .dropped })
    | _, _ => none
  | .exec a => if internal a then (CurrentThreadExecutor.step s.execs a).map fun x => { s with execs := x } else none
  | .startItem e => do
    let x ← s.execs.execs e
    match x.pc with
    | .popped j => do
      let y ← s.bodies j
      let execs ← CurrentThreadExecutor.step s.execs (.run e)
      let y' := if execs.placeOf j = some (.calling e) then runChild vars y x.workThread else { y with phase := .dropped }
      match y.phase with
      | .queued => some { s.setBody j y' with execs := execs }
      | _ => none
    | _ => none
  | .endBody i => do
    let b ← s.bodies i
    match b.phase with
    | .running => some { s.setBody i { b with phase := .ended } with busy := if s.busy = some i then none else s.busy }
    | _ => none
  | .resumeSync i => do
    let b ← s.bodies i
    match b.phase with
    | .awaiting j => do
      let y ← s.bodies j
      match y.kind with
      | .function _ ownContext => if submitted s j then some (s.setBody i (resumeSync vars b y ownContext)) else none
      | .task _ => none
    | _ => none
  | .callAsync i k e l t base => do
    let b ← s.bodies i
    match b.phase, b.kind with
    | .running, .function _ _ => if (s.bodies k).isNone then callAsync vars s i b k e l t base else none
    | _, _ => none
  | .resumeAsync i stored => do
    let b ← s.bodies i
    match b.phase with
    | .blocked k oldExecutor context => do
      let y ← s.bodies k
      match stored, y.phase with
      | true, .ended => some (s.setBody i { resumeAsync vars b oldExecutor y.ctx with reset := b.reset || y.reset })
      | true, _ => none
      | false, _ => some (s.setBody i (resumeAsync vars b oldExecutor context))
    | _ => none
  | .closeLoop l => some { s with loopExecutors := Function.update s.loopExecutors l none }

/-- The bodies, on the threads of one process, where `worker` is the thread of `single_thread_executor`. -/
def machine : Machine (State U) (Action U) := ⟨step vars worker⟩

end

/-! ### What a body does to its context -/

section

variable {U : Type}

/-- The wrapper's own entries are left alone. -/
theorem lookup_apply (t : ThreadId) (c : Context U) (op : UserOp U) {x : Var} (hu : ∀ n, x ≠ .user n)
    (hd : ∀ n, x ≠ .data (.user n)) (hs : x ≠ .threadSensitiveContext) : (op.apply t c).lookup x = c.lookup x := by
  cases op with
  | setVar y v => exact AList.lookup_insert_ne (hu y)
  | setAttr n key v => exact Context.lookup_setattr_ne c t key v (hd n)
  | delAttr n key =>
    simp only [UserOp.apply, Context.delattr]
    cases (c.storage t (.user n)).data key with
    | none => rfl
    | some v => exact Context.lookup_setData_ne c _ (hd n)
  | enter m =>
    simp only [UserOp.apply]
    split
    · rfl
    · exact AList.lookup_insert_ne hs
  | exit m =>
    simp only [UserOp.apply]
    split
    · exact AList.lookup_erase_ne hs
    · rfl

theorem deadlock_apply (t : ThreadId) (c : Context U) (op : UserOp U) : (op.apply t c).deadlock = c.deadlock :=
  Context.deadlock_congr (lookup_apply t c op (by simp) (by simp) (by simp))

theorem currentExecutor_apply (t : ThreadId) (c : Context U) (op : UserOp U) :
    (op.apply t c).currentExecutor t = c.currentExecutor t :=
  Context.currentExecutor_congr t (lookup_apply t c op (by simp) (by simp) (by simp))

end

/-! ### What a call leaves of a body -/

section

variable {U : Type} {vars : UserVars U}

@[simp] theorem kind_runChild (y : Body U) (t : ThreadId) : (runChild vars y t).kind = y.kind := by
  unfold runChild
  split <;> rfl

@[simp] theorem origin_runChild (y : Body U) (t : ThreadId) : (runChild vars y t).origin = y.origin := by
  unfold runChild
  split <;> rfl

@[simp] theorem reset_runChild (y : Body U) (t : ThreadId) : (runChild vars y t).reset = y.reset := by
  unfold runChild
  split <;> rfl

@[simp] theorem returns_runChild (y : Body U) (t : ThreadId) : (runChild vars y t).returns = y.returns := by
  unfold runChild
  split <;> rfl

@[simp] theorem ctx_runChild (y : Body U) (t : ThreadId) : (runChild vars y t).ctx = (restoreContext vars t y.ctx y.ctx).1 := by
  unfold runChild
  split <;> rename_i heq <;> rw [heq]

/-- The function runs on the thread, unless a comparison raised before it was called. -/
theorem phase_runChild (y : Body U) (t : ThreadId) :
    (runChild vars y t).phase = .running ∧ (runChild vars y t).thread = t ∧ ¬ Raises vars y.ctx y.ctx ∨
      (runChild vars y t).phase = .dropped := by
  cases hr : restoreContext vars t y.ctx y.ctx with
  | mk c raised =>
    cases raised with
    | none => exact Or.inl (by simp [runChild, hr, ← restoreContext_snd_eq_none (t := t)])
    | some e => exact Or.inr (by simp [runChild, hr])

variable (b y : Body U) (o : Bool)

@[simp] theorem kind_resumeSync : (resumeSync vars b y o).kind = b.kind := by
  unfold resumeSync
  split <;> rfl

@[simp] theorem thread_resumeSync : (resumeSync vars b y o).thread = b.thread := by
  unfold resumeSync
  split <;> rfl

@[simp] theorem phase_resumeSync : (resumeSync vars b y o).phase = .running := by
  unfold resumeSync
  split <;> rfl

@[simp] theorem origin_resumeSync : (resumeSync vars b y o).origin = b.origin := by
  unfold resumeSync
  split <;> rfl

@[simp] theorem reset_resumeSync : (resumeSync vars b y o).reset = true := by
  unfold resumeSync
  split <;> rfl

@[simp] theorem returns_resumeSync : (resumeSync vars b y o).returns = b.returns := by
  unfold resumeSync
  split <;> rfl

theorem phase_coroutine (context base : Context U) (l : LoopId) (t : ThreadId) :
    (coroutine vars b context base l t).phase = .running ∧ ¬ Raises vars context base ∨
      (coroutine vars b context base l t).phase = .dropped := by
  cases hr : (restoreContext vars t context base).2 with
  | none => exact Or.inl ⟨by simp [coroutine, hr], restoreContext_snd_eq_none.1 hr⟩
  | some e => exact Or.inr (by simp [coroutine, hr])

end

/-! ### What a step can do -/

/-- The steps of the machine, one constructor for each path through the code. -/
inductive StepTo {U : Type} (vars : UserVars U) (worker : ThreadId) (s : State U) : Action U → State U → Prop where
  | user {i op b} : s.bodies i = some b → b.phase = .running →
      StepTo vars worker s (.user i op) (s.setBody i { b with ctx := op.apply b.thread b.ctx })
  | createTask {i j b l} : s.bodies i = some b → b.phase = .running → b.kind = .task l → s.bodies j = none →
      StepTo vars worker s (.createTask i j) (s.setBody j { b with returns := [] })
  | driveLoop {i j l b x o} : s.bodies i = some b → b.phase = .running → b.kind = .function x o → s.bodies j = none →
      StepTo vars worker s (.driveLoop i j l) (s.setBody j { b with kind := .task l, returns := [] })
  | callSyncRaised {i j ts given own} : StepTo vars worker s (.callSync i j ts given own) s
  | callSync {i j ts given own b l x c execs} : s.bodies i = some b → b.phase = .running → b.kind = .task l →
      s.bodies j = none → chooseExecutor ⟨ts, given, s.loopExecutors l⟩ b.thread b.ctx = .ok (x, c) →
      ((∀ e, x ≠ .currentThread e) ∧ execs = s.execs ∨
        ∃ e, x = .currentThread e ∧ CurrentThreadExecutor.step s.execs (.submit j b.thread e) = some execs) →
      StepTo vars worker s (.callSync i j ts given own)
        { (s.setBody j (child b c j ts x own)).setBody i { b with ctx := c, phase := .awaiting j } with execs := execs }
  | refuse {i j b y} : s.bodies i = some b → b.phase = .awaiting j → s.bodies j = some y → y.phase = .queued →
      StepTo vars worker s (.refuse i)
        ((s.setBody j { y with phase := .dropped }).setBody i { b with phase := .running })
  | startSingle {j t y o} : s.bodies j = some y → y.phase = .queued → y.kind = .function .singleThread o →
      s.busy = none →
      StepTo vars worker s (.start j t) { s.setBody j (runChild vars y worker) with
        busy := if (runChild vars y worker).phase.isRunning then some j else none }
  | startPool {j t y x o} : s.bodies j = some y → y.phase = .queued → y.kind = .function x o →
      (∀ e, x ≠ .currentThread e) → x ≠ .singleThread →
      StepTo vars worker s (.start j t) (s.setBody j (runChild vars y t))
  | drop {j y} : s.bodies j = some y → y.phase = .queued →
      StepTo vars worker s (.drop j) (s.setBody j { y with phase := .dropped })
  | exec {a execs} : internal a = true → CurrentThreadExecutor.step s.execs a = some execs →
      StepTo vars worker s (.exec a) { s with execs := execs }
  | startItem {e x j y execs} : s.execs.execs e = some x → x.pc = .popped j → s.bodies j = some y → y.phase = .queued →
      CurrentThreadExecutor.step s.execs (.run e) = some execs →
      StepTo vars worker s (.startItem e) { s.setBody j (runChild vars y x.workThread) with execs := execs }
  | dropItem {e j y execs} : s.bodies j = some y → y.phase = .queued →
      CurrentThreadExecutor.step s.execs (.run e) = some execs →
      StepTo vars worker s (.startItem e) { s.setBody j { y with phase := .dropped } with execs := execs }
  | endBody {i b} : s.bodies i = some b → b.phase = .running →
      StepTo vars worker s (.endBody i)
        { s.setBody i { b with phase := .ended } with busy := if s.busy = some i then none else s.busy }
  | resumeSync {i j b y x o} : s.bodies i = some b → b.phase = .awaiting j → s.bodies j = some y →
      y.kind = .function x o → StepTo vars worker s (.resumeSync i) (s.setBody i (resumeSync vars b y o))
  | callAsync {i k e l t base b x o c execs} : s.bodies i = some b → b.phase = .running → b.kind = .function x o →
      s.bodies k = none →
      CurrentThreadExecutor.step s.execs (.create e b.thread (b.ctx.currentExecutor b.thread)) = some execs →
      StepTo vars worker s (.callAsync i k e l t base)
        { (s.setBody k (coroutine vars b (b.ctx.setCurrentExecutor b.thread (some e)) c l t)).setBody i
            { b with
              ctx := b.ctx.setCurrentExecutor b.thread (some e)
              phase := .blocked k (b.ctx.currentExecutor b.thread) (b.ctx.setCurrentExecutor b.thread (some e)) } with
          execs := execs
          loopExecutors :=
            if base = .caller then s.loopExecutors else Function.update s.loopExecutors l (some e) }
  | resumeStored {i k b y old context} : s.bodies i = some b → b.phase = .blocked k old context →
      s.bodies k = some y → y.phase = .ended →
      StepTo vars worker s (.resumeAsync i true)
        (s.setBody i { resumeAsync vars b old y.ctx with reset := b.reset || y.reset })
  | resumeEarly {i k b old context} : s.bodies i = some b → b.phase = .blocked k old context →
      StepTo vars worker s (.resumeAsync i false) (s.setBody i (resumeAsync vars b old context))
  | closeLoop {l} :
      StepTo vars worker s (.closeLoop l) { s with loopExecutors := Function.update s.loopExecutors l none }

theorem stepTo_of_step {U : Type} {vars : UserVars U} {worker : ThreadId} {s s' : State U} {a : Action U}
    (h : step vars worker s a = some s') : StepTo vars worker s a s' := by
  cases a with
  | user i op =>
    simp only [step, Option.bind_eq_bind, Option.bind_eq_some_iff] at h
    obtain ⟨b, hb, h⟩ := h
    split at h <;> cases h
    exact .user hb ‹_›
  | createTask i j =>
    simp only [step, Option.bind_eq_bind, Option.bind_eq_some_iff] at h
    obtain ⟨b, hb, h⟩ := h
    split at h
    · simp only [Option.ite_none_right_eq_some, Option.some.injEq, Option.isNone_iff_eq_none] at h
      obtain ⟨hj, rfl⟩ := h
      exact .createTask hb ‹_› ‹_› hj
    · cases h
  | driveLoop i j l =>
    simp only [step, Option.bind_eq_bind, Option.bind_eq_some_iff] at h
    obtain ⟨b, hb, h⟩ := h
    split at h
    · simp only [Option.ite_none_right_eq_some, Option.some.injEq, Option.isNone_iff_eq_none] at h
      obtain ⟨hj, rfl⟩ := h
      exact .driveLoop hb ‹_› ‹_› hj
    · cases h
  | callSync i j ts given own =>
    simp only [step, Option.bind_eq_bind, Option.bind_eq_some_iff] at h
    obtain ⟨b, hb, h⟩ := h
    split at h
    · simp only [Option.ite_none_right_eq_some, Option.isNone_iff_eq_none] at h
      obtain ⟨hj, h⟩ := h
      unfold callSync at h
      split at h
      · cases h
        exact .callSyncRaised
      · next x c hc =>
        simp only [Option.bind_eq_bind] at h
        split at h
        · next e =>
          obtain ⟨execs, hexecs, h⟩ := Option.bind_eq_some_iff.1 h
          split at h <;> cases h
          · exact .callSyncRaised
          · exact .callSync hb ‹_› ‹_› hj hc (Or.inr ⟨e, rfl, hexecs⟩)
        · next hx =>
          cases h
          exact .callSync hb ‹_› ‹_› hj hc (Or.inl ⟨hx, rfl⟩)
    · cases h
  | refuse i =>
    simp only [step, Option.bind_eq_bind, Option.bind_eq_some_iff] at h
    obtain ⟨b, hb, h⟩ := h
    split at h
    · simp only [Option.bind_eq_some_iff] at h
      obtain ⟨y, hy, h⟩ := h
      split at h
      · simp only [Option.ite_none_right_eq_some, Option.some.injEq] at h
        obtain ⟨-, rfl⟩ := h
        exact .refuse hb ‹_› hy ‹_›
      · cases h
    · cases h
  | start j t =>
    simp only [step, Option.bind_eq_bind, Option.bind_eq_some_iff] at h
    obtain ⟨y, hy, h⟩ := h
    split at h
    · unfold start at h
      split at h
      · simp only [Option.ite_none_right_eq_some, Option.some.injEq, Option.isNone_iff_eq_none] at h
        obtain ⟨hbusy, rfl⟩ := h
        exact .startSingle hy ‹_› ‹_› hbusy
      · cases h
      · cases h
      · cases h
        exact .startPool hy ‹_› ‹_› (by rintro e rfl; simp_all) (by rintro rfl; simp_all)
    · cases h
  | drop j =>
    simp only [step, Option.bind_eq_bind, Option.bind_eq_some_iff] at h
    obtain ⟨y, hy, h⟩ := h
    split at h <;> cases h
    exact .drop hy ‹_›
  | exec a =>
    simp only [step, Option.ite_none_right_eq_some] at h
    obtain ⟨ha, h⟩ := h
    obtain ⟨execs, hexecs, rfl⟩ := Option.map_eq_some_iff.1 h
    exact .exec ha hexecs
  | startItem e =>
    simp only [step, Option.bind_eq_bind, Option.bind_eq_some_iff] at h
    obtain ⟨x, hx, h⟩ := h
    split at h
    · simp only [Option.bind_eq_some_iff] at h
      obtain ⟨y, hy, execs, hexecs, h⟩ := h
      split at h
      · split at h <;> cases h
        · exact .startItem hx ‹_› hy ‹_› hexecs
        · exact .dropItem hy ‹_› hexecs
      · cases h
    · cases h
  | endBody i =>
    simp only [step, Option.bind_eq_bind, Option.bind_eq_some_iff] at h
    obtain ⟨b, hb, h⟩ := h
    split at h <;> cases h
    exact .endBody hb ‹_›
  | resumeSync i =>
    simp only [step, Option.bind_eq_bind, Option.bind_eq_some_iff] at h
    obtain ⟨b, hb, h⟩ := h
    split at h
    · simp only [Option.bind_eq_some_iff] at h
      obtain ⟨y, hy, h⟩ := h
      split at h
      · simp only [Option.ite_none_right_eq_some, Option.some.injEq] at h
        obtain ⟨-, rfl⟩ := h
        exact .resumeSync hb ‹_› hy ‹_›
      · cases h
    · cases h
  | callAsync i k e l t base =>
    simp only [step, Option.bind_eq_bind, Option.bind_eq_some_iff] at h
    obtain ⟨b, hb, h⟩ := h
    split at h
    · simp only [Option.ite_none_right_eq_some, Option.isNone_iff_eq_none, callAsync, Option.bind_eq_bind,
        Option.bind_eq_some_iff, Option.some.injEq] at h
      obtain ⟨hk, execs, hexecs, c, -, rfl⟩ := h
      exact .callAsync hb ‹_› ‹_› hk hexecs
    · cases h
  | resumeAsync i stored =>
    simp only [step, Option.bind_eq_bind, Option.bind_eq_some_iff] at h
    obtain ⟨b, hb, h⟩ := h
    split at h
    · simp only [Option.bind_eq_some_iff] at h
      obtain ⟨y, hy, h⟩ := h
      split at h <;> cases h
      · exact .resumeStored hb ‹_› hy ‹_›
      · exact .resumeEarly hb ‹_›
    · cases h
  | closeLoop l =>
    cases h
    exact .closeLoop

end Asgiref.Sync.Calls
