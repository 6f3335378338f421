import Asgiref.SyncToAsync.Enclosing
import Asgiref.Python.Future

/-!
# The loops of the tasks in `task_context`

The handler of a cancelled `SyncToAsync` call cancels and awaits the first task of its list, which is possible only
for a task of the loop the call runs on.

* `System`: the threads and loops of `ThreadHandler`, and the coroutine of every `SyncToAsync` call;
* `OwnLoop`: every list holds tasks of the call's own loop, and no call has ended because of another loop;
* `OnParentLoop`: the condition on the steps, that no task of a new loop goes into a list;
* `ownLoop_iff_onParentLoop`: the runs that keep the former are those that meet the latter.
-/

namespace Asgiref.SyncToAsync.ThreadHandler

open Asgiref.Python Asgiref.Lib

/-- How a `SyncToAsync` call ends. -/
inductive Ending where
  /-- with the outcome of its function -/
  | ofFunction (r : Result Unit)
  | cancelledError
  /-- with the `RuntimeError` about a future attached to a different loop -/
  | otherLoop
  /-- with what `await task` or the `_restore_context` of the `finally` block has raised -/
  | raised (e : Exn)
  deriving DecidableEq

/-- Where the coroutine of a `SyncToAsync` call is. -/
inductive CoroutinePc where
  /-- in `await asyncio.shield(exec_coro)` -/
  | shielded
  /-- `task.cancel()` was called, and `await task` comes next -/
  | atTask (a : TaskId)
  /-- in `await task` -/
  | awaitingTask (a : TaskId)
  /-- in `ret = await exec_coro` -/
  | awaitingExec
  /-- The `try` statement has ended so, and `finally` is about to run. -/
  | leaving (o : Ending)
  | ended (o : Ending)
  deriving DecidableEq

structure Coroutine where
  pc : CoroutinePc := .shielded
  /-- `exec_coro` -/
  execCoro : Future Unit := .pending

/-- The threads, and the coroutines of the `SyncToAsync` calls. -/
structure System where
  threads : State
  coroutines : CallId → Coroutine

namespace System

variable (s : System)

def init (pid : Nat) : System := { threads := State.init pid, coroutines := fun _ => {} }

def setCoroutine (c : CallId) (x : Coroutine) : System :=
  { s with coroutines := Function.update s.coroutines c x }

def goto (c : CallId) (pc : CoroutinePc) : System := s.setCoroutine c { s.coroutines c with pc := pc }

/-- The handler from `if exec_coro.done()` on. -/
def afterTask (c : CallId) (cancelParent : Bool) : System :=
  if (s.coroutines c).execCoro.done then s.goto c (.leaving .cancelledError)
  else if cancelParent then
    s.setCoroutine c { pc := .leaving .cancelledError, execCoro := (s.coroutines c).execCoro.cancel }
  else s.goto c .awaitingExec

/-- The handler from `await task` on, where the task has ended with `r`. -/
def taskEnded (c : CallId) : Result Unit → System
  | .ok _ => s.afterTask c false
  | .error .cancelledError => s.afterTask c true
  | .error e => s.goto c (.leaving (.raised e))

/-- The handler of `CancelledError` up to `task.cancel()`. -/
def handler (c : CallId) : Option System := do
  let x ← s.threads.syncCalls c
  match x.taskContext with
  | [] => some (s.afterTask c true)
  | a :: _ => (step s.threads (.cancel c)).map fun threads => { s with threads }.goto c (.atTask a)

/-- `await task`, which raises for a task of another loop that is not done; `t` is how the task has ended, if it has. -/
def awaitTask (c : CallId) (a : TaskId) (t : Result Unit) : Option System := do
  let x ← s.threads.syncCalls c
  let r ← s.threads.asyncCalls a
  if r.phase = .removed then some (s.taskEnded c t)
  else if r.ranOn = some x.loop then some (s.goto c (.awaitingTask a))
  else some (s.goto c (.leaving .otherLoop))

/-- What the coroutine awaits is done, or it goes on in the handler. -/
def resume (c : CallId) (t : Result Unit) : Option System :=
  match (s.coroutines c).pc, (s.coroutines c).execCoro with
  -- also a function that raises a `CancelledError` itself brings the coroutine to the handler
  | .shielded, .finished (.error .cancelledError) => s.handler c
  | .shielded, .finished r => some (s.goto c (.leaving (.ofFunction r)))
  | .shielded, .cancelled => s.handler c
  | .atTask a, _ => s.awaitTask c a t
  | .awaitingTask a, _ => do
    let r ← s.threads.asyncCalls a
    if r.phase = .removed then some (s.taskEnded c t) else none
  | .awaitingExec, .finished r => some (s.goto c (.leaving (.ofFunction r)))
  | .awaitingExec, .cancelled => some (s.goto c (.leaving .cancelledError))
  | _, _ => none

/-- `CancelledError` is thrown into the coroutine at its `await`. -/
def interrupt (c : CallId) : Option System :=
  match (s.coroutines c).pc with
  | .shielded => s.handler c
  | .awaitingTask _ => some (s.afterTask c true)
  | .awaitingExec => some (s.goto c (.leaving .cancelledError))
  | .atTask _ | .leaving _ | .ended _ => none

/-- The `finally` block, where `_restore_context` has raised `e` or nothing. -/
def finish (c : CallId) (e : Option Exn) : Option System :=
  match (s.coroutines c).pc with
  | .leaving o => some (s.goto c (.ended (e.elim o .raised)))
  | _ => none

/-- `exec_coro` takes the outcome of the function, or is cancelled by the executor. -/
def settle (c : CallId) (o : Option (Result Unit)) : Option System :=
  match (s.coroutines c).execCoro with
  | .pending =>
    match o with
    | some r => some (s.setCoroutine c { s.coroutines c with execCoro := .finished r })
    | none => some (s.setCoroutine c { s.coroutines c with execCoro := .cancelled })
  | _ => none

end System

inductive SystemAction where
  /-- A step of a thread or a loop; the step `cancel` is the handler's. -/
  | thread (a : Action)
  | settle (c : CallId) (o : Option (Result Unit))
  | interrupt (c : CallId)
  /-- `t` is how the task has ended that the coroutine awaits. -/
  | resume (c : CallId) (t : Result Unit := .ok ())
  /-- `e` is what the `_restore_context` of the `finally` block raises. -/
  | finish (c : CallId) (e : Option Exn := none)

def System.step (s : System) : SystemAction → Option System
  | .thread (.cancel _) => none
  | .thread a => (ThreadHandler.step s.threads a).map fun threads => { s with threads }
  | .settle c o => s.settle c o
  | .interrupt c => s.interrupt c
  | .resume c t => s.resume c t
  | .finish c e => s.finish c e

/-- The nested calls with the coroutines above them. -/
def system : Machine System SystemAction := ⟨System.step⟩

/-! ### What the steps do -/

namespace System

variable {s s' : System}

@[simp] theorem coroutines_setCoroutine (s : System) (c d : CallId) (x : Coroutine) :
    (s.setCoroutine c x).coroutines d = if d = c then x else s.coroutines d := by
  simp only [setCoroutine, Function.update_apply]

@[simp] theorem pc_goto (s : System) (c d : CallId) (pc : CoroutinePc) :
    ((s.goto c pc).coroutines d).pc = if d = c then pc else (s.coroutines d).pc := by
  rw [goto, coroutines_setCoroutine]
  split <;> rfl

@[simp] theorem threads_afterTask (s : System) (c : CallId) (b : Bool) : (s.afterTask c b).threads = s.threads := by
  unfold afterTask
  split
  · rfl
  · split <;> rfl

/-- Where a step of the coroutine of `c` can take a coroutine. -/
inductive Moves (s : System) (c : CallId) : CoroutinePc → Prop
  | stays : Moves s c (s.coroutines c).pc
  | ofFunction (r : Result Unit) : Moves s c (.leaving (.ofFunction r))
  | cancelled : Moves s c (.leaving .cancelledError)
  | taskRaised (e : Exn) : Moves s c (.leaving (.raised e))
  | awaitingExec : Moves s c .awaitingExec
  /-- `task.cancel()` for the first task of the list -/
  | atTask {x a l} : s.threads.syncCalls c = some x → x.taskContext = a :: l → Moves s c (.atTask a)
  /-- `await task` for a task of the same loop -/
  | awaitingTask {a} : Moves s c (.awaitingTask a)
  /-- `await task` for a task of another loop -/
  | otherLoop {x a r} : (s.coroutines c).pc = .atTask a → s.threads.syncCalls c = some x →
      s.threads.asyncCalls a = some r → r.ranOn ≠ some x.loop → Moves s c (.leaving .otherLoop)
  | ends {o} : (s.coroutines c).pc = .leaving o → Moves s c (.ended o)
  | restoreRaised (e : Exn) : Moves s c (.ended (.raised e))

theorem moves_goto {s : System} {c : CallId} {pc : CoroutinePc} (h : Moves s c pc) (d : CallId) :
    Moves s d ((s.goto c pc).coroutines d).pc := by
  rw [pc_goto]
  by_cases hd : d = c
  · subst hd
    rw [if_pos rfl]
    exact h
  · rw [if_neg hd]
    exact .stays

theorem moves_afterTask (s : System) (c : CallId) (b : Bool) (d : CallId) :
    Moves s d ((s.afterTask c b).coroutines d).pc := by
  unfold afterTask
  split
  · exact moves_goto .cancelled d
  · split
    · rw [coroutines_setCoroutine]
      by_cases hd : d = c
      · rw [if_pos hd]
        exact .cancelled
      · rw [if_neg hd]
        exact .stays
    · exact moves_goto .awaitingExec d

@[simp] theorem threads_taskEnded (s : System) (c : CallId) (t : Result Unit) :
    (s.taskEnded c t).threads = s.threads := by
  unfold taskEnded
  split
  · exact threads_afterTask ..
  · exact threads_afterTask ..
  · rfl

theorem moves_taskEnded (s : System) (c : CallId) (t : Result Unit) (d : CallId) :
    Moves s d ((s.taskEnded c t).coroutines d).pc := by
  unfold taskEnded
  split
  · exact moves_afterTask s c false d
  · exact moves_afterTask s c true d
  · exact moves_goto (.taskRaised _) d

/-- The threads are left alone, or the first task of the list is cancelled. -/
def ThreadsStep (s s' : System) (c : CallId) : Prop :=
  s'.threads = s.threads ∨ ThreadHandler.step s.threads (.cancel c) = some s'.threads

theorem handler_cases {c : CallId} (h : s.handler c = some s') :
    ThreadsStep s s' c ∧ ∀ d, Moves s d (s'.coroutines d).pc := by
  simp only [handler, Option.bind_eq_bind, Option.bind_eq_some_iff] at h
  obtain ⟨x, hx, h⟩ := h
  split at h
  · cases h
    exact ⟨.inl (threads_afterTask ..), moves_afterTask s c true⟩
  · next a l hl =>
    obtain ⟨th, hth, rfl⟩ := Option.map_eq_some_iff.1 h
    refine ⟨.inr hth, fun d => ?_⟩
    have hmove := moves_goto (.atTask hx hl) d
    rw [pc_goto] at hmove ⊢
    exact hmove

theorem awaitTask_cases {c : CallId} {a : TaskId} {t : Result Unit} (hpc : (s.coroutines c).pc = .atTask a)
    (h : s.awaitTask c a t = some s') : ThreadsStep s s' c ∧ ∀ d, Moves s d (s'.coroutines d).pc := by
  simp only [awaitTask, Option.bind_eq_bind, Option.bind_eq_some_iff] at h
  obtain ⟨x, hx, r, hr, h⟩ := h
  split at h
  · cases h
    exact ⟨.inl (threads_taskEnded ..), moves_taskEnded s c t⟩
  · split at h <;> cases h
    · exact ⟨.inl rfl, moves_goto .awaitingTask⟩
    · exact ⟨.inl rfl, moves_goto (.otherLoop hpc hx hr ‹_›)⟩

/-- **What a coroutine's step does.** -/
theorem coroutine_cases {a : SystemAction} (h : s.step a = some s') :
    (∃ b, a = .thread b ∧ ThreadHandler.step s.threads b = some s'.threads ∧ s'.coroutines = s.coroutines) ∨
      ((∀ b, a ≠ .thread b) ∧ ∃ c, ThreadsStep s s' c ∧ ∀ d, Moves s d (s'.coroutines d).pc) := by
  cases a with
  | thread b =>
    left
    cases b with
    | cancel c => cases h
    | _ =>
      simp only [step] at h
      obtain ⟨th, hth, rfl⟩ := Option.map_eq_some_iff.1 h
      exact ⟨_, rfl, hth, rfl⟩
  | settle c o =>
    refine .inr ⟨nofun, c, ?_⟩
    have hpc : ∀ f, ∀ d, Moves s d ((s.setCoroutine c { s.coroutines c with execCoro := f }).coroutines d).pc := by
      intro f d
      rw [coroutines_setCoroutine]
      by_cases hd : d = c
      · rw [if_pos hd, hd]
        exact .stays
      · rw [if_neg hd]
        exact .stays
    simp only [step, settle] at h
    split at h
    · split at h <;> cases h <;> exact ⟨.inl rfl, hpc _⟩
    · cases h
  | interrupt c =>
    refine .inr ⟨nofun, c, ?_⟩
    simp only [step, interrupt] at h
    split at h
    · exact handler_cases h
    · cases h
      exact ⟨.inl (threads_afterTask ..), moves_afterTask s c true⟩
    · cases h
      exact ⟨.inl rfl, moves_goto .cancelled⟩
    · cases h
    · cases h
    · cases h
  | resume c t =>
    refine .inr ⟨nofun, c, ?_⟩
    simp only [step, resume] at h
    split at h
    · exact handler_cases h
    · cases h
      exact ⟨.inl rfl, moves_goto (.ofFunction _)⟩
    · exact handler_cases h
    · exact awaitTask_cases ‹_› h
    · simp only [Option.bind_eq_bind, Option.bind_eq_some_iff, Option.ite_none_right_eq_some, Option.some.injEq] at h
      obtain ⟨r, -, -, rfl⟩ := h
      exact ⟨.inl (threads_taskEnded ..), moves_taskEnded s c t⟩
    · cases h
      exact ⟨.inl rfl, moves_goto (.ofFunction _)⟩
    · cases h
      exact ⟨.inl rfl, moves_goto .cancelled⟩
    · cases h
  | finish c e =>
    refine .inr ⟨nofun, c, ?_⟩
    simp only [step, finish] at h
    split at h
    · next o ho =>
      cases h
      refine ⟨.inl rfl, moves_goto ?_⟩
      cases e with
      | none => exact .ends ho
      | some e => exact .restoreRaised e
    · cases h

end System

/-! ### What no step of a thread changes -/

/-- The loop a call runs on. -/
theorem loop_step {s s' : State} {a : Action} (hs : step s a = some s') {c : CallId} {x : SyncCall}
    (hx : s.syncCalls c = some x) : ∃ x', s'.syncCalls c = some x' ∧ x'.loop = x.loop := by
  have same : ∃ x', s.syncCalls c = some x' ∧ x'.loop = x.loop := ⟨x, hx, rfl⟩
  have onList : ∀ o f, ∃ x', (s.onList o f).syncCalls c = some x' ∧ x'.loop = x.loop := by
    intro o f
    rw [State.syncCalls_onList, hx]
    exact ⟨_, rfl, by split <;> rfl⟩
  cases stepTo_of_step hs with
  | @submit d l hnone =>
    rw [State.syncCalls_setSync, if_neg (by rintro rfl; rw [hnone] at hx; cases hx)]
    exact same
  | @startHandler d t y hy =>
    rw [syncCalls_threadHandler]
    by_cases hc : c = d
    · subst hc
      cases hx.symm.trans hy
      exact ⟨_, if_pos rfl, rfl⟩
    · rw [if_neg hc]
      exact same
  | register => exact onList _ _
  | remove => simpa using onList _ _
  | resolve => simpa using same
  | _ => exact same

/-- The loop a task runs on, and the list it has read; and when it goes into the list. -/
theorem ranOn_step {s s' : State} {a : Action} (hs : step s a = some s') {b : TaskId} {r : AsyncCall}
    (hr : s.asyncCalls b = some r) : ∃ r', s'.asyncCalls b = some r' ∧ r'.ranOn = r.ranOn ∧
      r'.taskContext = r.taskContext ∧ (r'.phase.inList → r.phase.inList ∨ a = .register b) := by
  have same : ∃ r', s.asyncCalls b = some r' ∧ r'.ranOn = r.ranOn ∧ r'.taskContext = r.taskContext ∧
      (r'.phase.inList → r.phase.inList ∨ a = .register b) := ⟨r, hr, rfl, rfl, .inl⟩
  have set : ∀ {u : State} {d : TaskId} {q q' : AsyncCall}, u.asyncCalls = s.asyncCalls → s.asyncCalls d = some q →
      q'.ranOn = q.ranOn → q'.taskContext = q.taskContext → (q'.phase.inList → q.phase.inList ∨ a = .register d) →
      ∃ r', (u.setAsync d q').asyncCalls b = some r' ∧ r'.ranOn = r.ranOn ∧ r'.taskContext = r.taskContext ∧
        (r'.phase.inList → r.phase.inList ∨ a = .register b) := by
    intro u d q q' hu hq hran hctx hphase
    rw [State.asyncCalls_setAsync]
    by_cases hb : b = d
    · subst hb
      cases hr.symm.trans hq
      exact ⟨q', if_pos rfl, hran, hctx, hphase⟩
    · rw [if_neg hb, hu]
      exact same
  cases stepTo_of_step hs with
  | @callAsync d t f _ hnone =>
    unfold asyncCall
    rw [State.asyncCalls_setAsync, if_neg (by rintro rfl; rw [hnone] at hr; cases hr)]
    exact same
  | register hq => exact set (by simp) hq rfl rfl fun _ => .inr rfl
  | @resolve d q hq hphase => exact set (by simp) hq rfl rfl fun _ => .inl (by rw [hphase]; trivial)
  | remove hq => exact set (by simp) hq rfl rfl fun h => h.elim
  | cancel _ _ _ hq => exact set rfl hq rfl rfl .inl
  | _ => exact same

/-- A new task is not in a list yet. -/
theorem not_inList_of_new {s s' : State} {a : Action} (hs : step s a = some s') {b : TaskId} {r : AsyncCall}
    (hnew : s.asyncCalls b = none) (hr : s'.asyncCalls b = some r) : ¬ r.phase.inList := by
  have old : ∀ {u : State} {d : TaskId} {q q' : AsyncCall}, u.asyncCalls = s.asyncCalls → s.asyncCalls d = some q →
      (u.setAsync d q').asyncCalls b = none := by
    intro u d q q' hu hq
    rw [State.asyncCalls_setAsync, if_neg (by rintro rfl; rw [hnew] at hq; cases hq), hu, hnew]
  cases stepTo_of_step hs with
  | @callAsync d t f =>
    unfold asyncCall at hr
    rw [State.asyncCalls_setAsync] at hr
    by_cases hb : b = d
    · rw [if_pos hb] at hr
      cases hr
      exact id
    · rw [if_neg hb] at hr
      cases hnew.symm.trans hr
  | register hq => rw [old (by simp) hq] at hr; cases hr
  | resolve hq => rw [old (by simp) hq] at hr; cases hr
  | remove hq => rw [old (by simp) hq] at hr; cases hr
  | cancel _ _ _ hq => rw [old rfl hq] at hr; cases hr
  | _ => cases hnew.symm.trans hr

/-! ### The lists -/

/-- The tasks that have read a list run on a parent loop while they are in it. -/
def AllOnParent (s : State) : Prop :=
  ∀ a r, s.asyncCalls a = some r → r.taskContext.isSome → r.phase.inList → r.ranOn.isSome

/-- The parent loop of a task is the one of the call whose list it has read. -/
theorem tasks_iff_allOnParent {s : State} (h : Direct s) :
    (∀ c x a, s.syncCalls c = some x → a ∈ x.taskContext → ∃ r, s.asyncCalls a = some r ∧ r.ranOn = some x.loop) ↔
      AllOnParent s := by
  constructor
  · intro htasks a r hr hctx hphase
    obtain ⟨c, hc⟩ := Option.isSome_iff_exists.1 hctx
    obtain ⟨x, hx, -⟩ := (h.known a r hr).1 c hc
    obtain ⟨q, hq, hran⟩ := htasks c x a hx ((h.listed c x a hx).2 ⟨r, hr, hc, Phase.inList_iff.1 hphase⟩)
    cases hr.symm.trans hq
    rw [hran]
    rfl
  · intro hall c x a hx ha
    obtain ⟨r, hr, hc, hphase⟩ := (h.listed c x a hx).1 ha
    obtain ⟨l, hl⟩ := Option.isSome_iff_exists.1 (hall a r hr (by rw [hc]; rfl) (Phase.inList_iff.2 hphase))
    obtain ⟨c', x', hc', hx', rfl⟩ := (h.known a r hr).2 l hl
    cases hc.symm.trans hc'
    cases hx.symm.trans hx'
    exact ⟨r, hr, hl⟩

theorem allOnParent_step {s s' : State} {a : Action} (h : AllOnParent s) (hs : step s a = some s')
    (ha : ∀ b, a = .register b → ∀ r, s.asyncCalls b = some r → r.taskContext.isSome → r.ranOn.isSome) :
    AllOnParent s' := by
  intro b r' hr' hctx hphase
  cases hr : s.asyncCalls b with
  | none => exact absurd hphase (not_inList_of_new hs hr hr')
  | some r =>
    obtain ⟨q, hq, hran, hctx', hin⟩ := ranOn_step hs hr
    cases hr'.symm.trans hq
    rw [hran]
    rw [hctx'] at hctx
    obtain hin | hreg := hin hphase
    · exact h b r hr hctx hin
    · exact ha b hreg r hr hctx

/-! ### Runs -/

/-- **Tasks of the own loop.**  Every list holds tasks of the loop its call runs on, and no call has ended by a
`RuntimeError` about a different loop. -/
structure OwnLoop (s : System) : Prop where
  tasks : ∀ c x a, s.threads.syncCalls c = some x → a ∈ x.taskContext →
    ∃ r, s.threads.asyncCalls a = some r ∧ r.ranOn = some x.loop
  endings : ∀ c, (s.coroutines c).pc ≠ .ended .otherLoop

/-- **The condition on the steps.**  A task that goes into a list was accepted by a parent loop. -/
def OnParentLoop (s : System) : SystemAction → Prop
  | .thread (.register a) => ∀ r, s.threads.asyncCalls a = some r → r.taskContext.isSome → r.ranOn.isSome
  | _ => True

instance (s : System) : ∀ a, Decidable (OnParentLoop s a)
  | .thread (.register a) =>
    decidable_of_iff ((s.threads.asyncCalls a).all fun r => !r.taskContext.isSome || r.ranOn.isSome)
      (by simp [OnParentLoop, Option.all_eq_true, or_iff_not_imp_left, Option.isSome_iff_ne_none])
  | .thread (.openLoop _) | .thread (.closeLoop _) | .thread (.submit ..) | .thread (.startHandler ..)
  | .thread (.endHandler _) | .thread (.callAsync ..) | .thread (.resolve _) | .thread (.remove _)
  | .thread (.leave _) | .thread (.cancel _) | .settle .. | .interrupt _ | .resume .. | .finish .. => isTrue trivial

/-- What every step keeps that meets the condition. -/
structure SystemInv (s : System) : Prop where
  linked : Linked s.threads
  direct : Direct s.threads
  own : OwnLoop s
  /-- the task the handler is about to await -/
  atTask : ∀ c a, (s.coroutines c).pc = .atTask a → ∃ x r, s.threads.syncCalls c = some x ∧
    s.threads.asyncCalls a = some r ∧ r.ranOn = some x.loop
  leaving : ∀ c, (s.coroutines c).pc ≠ .leaving .otherLoop

theorem systemInv_init (pid : Nat) : SystemInv (System.init pid) where
  linked := linked_init pid
  direct := direct_init pid
  own := ⟨fun _ _ _ h => (by cases h), fun _ h => (by cases h)⟩
  atTask := fun _ _ h => by cases h
  leaving := fun _ h => by cases h

/-- A task on the own loop stays there. -/
theorem onLoop_step {s s' : State} {a : Action} (hs : step s a = some s') {c : CallId} {b : TaskId}
    (h : ∃ x r, s.syncCalls c = some x ∧ s.asyncCalls b = some r ∧ r.ranOn = some x.loop) :
    ∃ x r, s'.syncCalls c = some x ∧ s'.asyncCalls b = some r ∧ r.ranOn = some x.loop := by
  obtain ⟨x, r, hx, hr, hran⟩ := h
  obtain ⟨x', hx', hloop⟩ := loop_step hs hx
  obtain ⟨r', hr', hran', -⟩ := ranOn_step hs hr
  exact ⟨x', r', hx', hr', by rw [hran', hran, hloop]⟩

/-- A step of the threads that meets the condition. -/
theorem SystemInv.threads {s s' : System} (h : SystemInv s) {a : Action} (hs : step s.threads a = some s'.threads)
    (ha : ∀ b, a = .register b → ∀ r, s.threads.asyncCalls b = some r → r.taskContext.isSome → r.ranOn.isSome) :
    Linked s'.threads ∧ Direct s'.threads ∧ AllOnParent s'.threads :=
  ⟨linked_step h.linked hs, direct_step h.linked h.direct hs,
    allOnParent_step ((tasks_iff_allOnParent h.direct).1 h.own.tasks) hs ha⟩

/-- **The step lemma.** -/
theorem systemInv_step {s s' : System} {a : SystemAction} (h : SystemInv s) (hC : OnParentLoop s a)
    (hs : s.step a = some s') : SystemInv s' := by
  obtain ⟨b, rfl, hthreads, hcor⟩ | ⟨hother, c, hthreads, hmoves⟩ := System.coroutine_cases hs
  · have hreg : ∀ t, b = .register t → ∀ r, s.threads.asyncCalls t = some r → r.taskContext.isSome → r.ranOn.isSome := by
      rintro t rfl
      exact hC
    obtain ⟨hl, hd, hall⟩ := h.threads hthreads hreg
    refine ⟨hl, hd, ⟨(tasks_iff_allOnParent hd).2 hall, fun c => ?_⟩, fun c a hpc => ?_, fun c => ?_⟩
    · rw [hcor]
      exact h.own.endings c
    · rw [hcor] at hpc
      exact onLoop_step hthreads (h.atTask c a hpc)
    · rw [hcor]
      exact h.leaving c
  · have hpres : (Linked s'.threads ∧ Direct s'.threads ∧ AllOnParent s'.threads) ∧ ∀ d t,
        (∃ x r, s.threads.syncCalls d = some x ∧ s.threads.asyncCalls t = some r ∧ r.ranOn = some x.loop) →
        ∃ x r, s'.threads.syncCalls d = some x ∧ s'.threads.asyncCalls t = some r ∧ r.ranOn = some x.loop := by
      obtain heq | hcancel := hthreads
      · rw [heq]
        exact ⟨⟨h.linked, h.direct, (tasks_iff_allOnParent h.direct).1 h.own.tasks⟩, fun _ _ => id⟩
      · exact ⟨h.threads hcancel nofun, fun _ _ => onLoop_step hcancel⟩
    obtain ⟨⟨hl, hd, hall⟩, hloop⟩ := hpres
    refine ⟨hl, hd, ⟨(tasks_iff_allOnParent hd).2 hall, fun d hpc => ?_⟩, fun d t hpc => hloop d t ?_, fun d hpc => ?_⟩
    · have hmove := hmoves d
      rw [hpc] at hmove
      generalize hp : CoroutinePc.ended .otherLoop = p at hmove
      cases hmove with
      | stays => exact h.own.endings d hp.symm
      | ends ho =>
        cases hp
        exact h.leaving d ho
      | _ => cases hp
    · have hmove := hmoves d
      rw [hpc] at hmove
      generalize hp : CoroutinePc.atTask t = p at hmove
      cases hmove with
      | stays => exact h.atTask d t hp.symm
      | @atTask x a l hx hlist =>
        cases hp
        obtain ⟨r, hr, hran⟩ := h.own.tasks d x t hx (by rw [hlist]; exact List.mem_cons_self ..)
        exact ⟨x, r, hx, hr, hran⟩
      | _ => cases hp
    · have hmove := hmoves d
      rw [hpc] at hmove
      generalize hp : CoroutinePc.leaving .otherLoop = p at hmove
      cases hmove with
      | stays => exact h.leaving d hp.symm
      | otherLoop hat hx hr hne =>
        obtain ⟨x', r', hx', hr', hran⟩ := h.atTask d _ hat
        cases hx.symm.trans hx'
        cases hr.symm.trans hr'
        exact hne hran
      | _ => cases hp

/-- A step that breaks the condition puts a task of a new loop into a list. -/
theorem not_ownLoop_of_newLoop {s s' : System} {a : SystemAction} (h : SystemInv s) (hC : ¬ OnParentLoop s a)
    (hs : s.step a = some s') : ¬ OwnLoop s' := by
  intro hown
  unfold OnParentLoop at hC
  split at hC
  · next b =>
    simp only [not_forall] at hC
    obtain ⟨r, hr, hctx, hnew⟩ := hC
    simp only [System.step] at hs
    obtain ⟨th, hth, rfl⟩ := Option.map_eq_some_iff.1 hs
    have hd : Direct th := direct_step (a := .register b) h.linked h.direct hth
    have hall := (tasks_iff_allOnParent hd).1 hown.tasks
    cases stepTo_of_step hth with
    | register hq =>
      cases hr.symm.trans hq
      exact hnew (hall b { r with phase := .registered } (by rw [State.asyncCalls_setAsync, if_pos rfl]) hctx trivial)
  · exact hC trivial

/-- **The lists hold tasks of the own loop**, and no cancelled call ends by a `RuntimeError` about a different
loop, in exactly those runs where no task of a new loop goes into a list. -/
theorem ownLoop_iff_onParentLoop {pid : Nat} {as : List SystemAction} {s : System}
    (hrun : system.run (System.init pid) as = some s) :
    system.Along (fun _ _ s' => OwnLoop s') (System.init pid) as ↔ system.Meets OnParentLoop (System.init pid) as := by
  refine system.along_iff_meets (K := SystemInv) ?_ ?_ (systemInv_init pid) hrun
  · intro s a s' h hC hs
    have h' := systemInv_step h hC hs
    exact ⟨h'.own, h'⟩
  · intro s a s' h hC hs
    exact not_ownLoop_of_newLoop h hC hs

/-- A function that calls with `force_new_loop`, and whose `SyncToAsync` call is cancelled meanwhile. -/
def forcedLoop : List SystemAction :=
  [.thread (.openLoop 0), .thread (.submit 0 0), .thread (.startHandler 0 1), .thread (.callAsync 0 1 true),
    .thread (.register 0), .interrupt 0, .resume 0, .finish 0]

/-- The same function without `force_new_loop`: its task ends first, and then the function. -/
def parentLoop : List SystemAction :=
  [.thread (.openLoop 0), .thread (.submit 0 0), .thread (.startHandler 0 1), .thread (.callAsync 0 1 false),
    .thread (.register 0), .interrupt 0, .resume 0, .thread (.resolve 0), .thread (.remove 0), .resume 0,
    .settle 0 (some (.ok ())), .resume 0, .finish 0]

theorem ownLoop_of_parentLoop : system.Along (fun _ _ s' => OwnLoop s') (System.init 1) parentLoop :=
  (ownLoop_iff_onParentLoop rfl).2 (by decide)

/-- The list holds a task of another loop, and the cancelled call ends by a `RuntimeError` about it. -/
theorem ended_by_otherLoop : ∃ s, system.run (System.init 1) forcedLoop = some s ∧
    (s.coroutines 0).pc = .ended .otherLoop ∧
    ∃ x r, s.threads.syncCalls 0 = some x ∧ x.taskContext = [0] ∧ s.threads.asyncCalls 0 = some r ∧
      r.ranOn ≠ some x.loop :=
  ⟨_, rfl, rfl, _, _, rfl, rfl, rfl, nofun⟩

end Asgiref.SyncToAsync.ThreadHandler
